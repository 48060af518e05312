import Mathlib.Algebra.Order.Ring.Nat
import Mathlib.Data.List.Basic

/-!
# `SrsUE.Lib.Cuts`: pieces of a block and the lengths that describe them

A block of units is divided into consecutive pieces. The pieces can be given by their
lengths, by the positions at which they end (`pieceEnds`), or by both positions (`pieces`).
`gaps` turns ends back into lengths. The lemmas say how these views behave when the list of
ends is split, in particular at a position (`filter_lt_append_filter_ge`).
-/

set_option autoImplicit false

namespace SrsUE.Lib

/-- The ends of consecutive pieces with the given lengths, the first one from `pos` on. -/
def pieceEnds : Nat → List Nat → List Nat
  | _, [] => []
  | pos, l :: ls => (pos + l) :: pieceEnds (pos + l) ls

/-- The lengths of the pieces that start at `pos` and end at the given positions. -/
def gaps : Nat → List Nat → List Nat
  | _, [] => []
  | pos, b :: bs => (b - pos) :: gaps b bs

/-- The start and end of each of these pieces. -/
def pieces : Nat → List Nat → List (Nat × Nat)
  | _, [] => []
  | pos, b :: bs => (pos, b) :: pieces b bs

/-- There is an end for each length. -/
theorem length_pieceEnds (pos : Nat) (ls : List Nat) : (pieceEnds pos ls).length = ls.length := by
  induction ls generalizing pos with
  | nil => rfl
  | cons l ls ih => rw [pieceEnds, List.length_cons, ih, List.length_cons]

/-- Ends lie behind the start, when no length is zero. -/
theorem lt_of_mem_pieceEnds {pos : Nat} {ls : List Nat} (h : ∀ l ∈ ls, 0 < l) {b : Nat}
    (hb : b ∈ pieceEnds pos ls) : pos < b := by
  induction ls generalizing pos with
  | nil => cases hb
  | cons l ls ih =>
    have hl := h l (List.mem_cons_self ..)
    rcases List.mem_cons.mp hb with rfl | hb
    · omega
    · have := ih (fun k hk => h k (List.mem_cons_of_mem _ hk)) hb
      omega

/-- They lie no further than the sum. -/
theorem le_of_mem_pieceEnds {pos : Nat} {ls : List Nat} {b : Nat}
    (hb : b ∈ pieceEnds pos ls) : b ≤ pos + ls.sum := by
  induction ls generalizing pos with
  | nil => cases hb
  | cons l ls ih =>
    rw [List.sum_cons]
    rcases List.mem_cons.mp hb with rfl | hb
    · omega
    · have := ih hb
      omega

/-- Pieces that are not empty end one after the other. -/
theorem pairwise_pieceEnds {pos : Nat} {ls : List Nat} (h : ∀ l ∈ ls, 0 < l) :
    (pieceEnds pos ls).Pairwise (· < ·) := by
  induction ls generalizing pos with
  | nil => exact List.Pairwise.nil
  | cons l ls ih =>
    have hls : ∀ k ∈ ls, 0 < k := fun k hk => h k (List.mem_cons_of_mem _ hk)
    exact List.Pairwise.cons (fun b hb => lt_of_mem_pieceEnds hls hb) (ih hls)

/-- Increasing positions are split at `v` into those below and those not below it. -/
theorem filter_lt_append_filter_ge {bs : List Nat} (h : bs.Pairwise (· < ·)) (v : Nat) :
    bs.filter (· < v) ++ bs.filter (v ≤ ·) = bs := by
  induction bs with
  | nil => rfl
  | cons b bs ih =>
    obtain ⟨hb, hbs⟩ := List.pairwise_cons.mp h
    by_cases hv : b < v
    · rw [List.filter_cons_of_pos (by simpa using hv), List.filter_cons_of_neg (by simpa using hv),
        List.cons_append, ih hbs]
    · have hnone : bs.filter (· < v) = [] := by
        rw [List.filter_eq_nil_iff]
        intro c hc
        have := hb c hc
        simp only [decide_eq_true_eq]
        omega
      have hall : bs.filter (v ≤ ·) = bs := by
        rw [List.filter_eq_self]
        intro c hc
        have := hb c hc
        simp only [decide_eq_true_eq]
        omega
      rw [List.filter_cons_of_neg (by simpa using hv), List.filter_cons_of_pos
        (by simpa using Nat.le_of_not_lt hv), hnone, hall, List.nil_append]

/-- The gaps of two lists of ends. -/
theorem gaps_append (p : Nat) (xs ys : List Nat) :
    gaps p (xs ++ ys) = gaps p xs ++ gaps (xs.getLastD p) ys := by
  induction xs generalizing p with
  | nil => rfl
  | cons x xs ih => rw [List.cons_append, gaps, ih, gaps, List.getLastD_cons, List.cons_append]

/-- There is a gap for each end. -/
theorem length_gaps (p : Nat) (bs : List Nat) : (gaps p bs).length = bs.length := by
  induction bs generalizing p with
  | nil => rfl
  | cons b bs ih => rw [gaps, List.length_cons, ih, List.length_cons]

/-- The pieces of two lists of ends. -/
theorem pieces_append (p : Nat) (xs ys : List Nat) :
    pieces p (xs ++ ys) = pieces p xs ++ pieces (xs.getLastD p) ys := by
  induction xs generalizing p with
  | nil => rfl
  | cons x xs ih =>
    rw [List.cons_append, pieces, ih, pieces, List.getLastD_cons, List.cons_append]

/-- The end of a piece is one of the given positions. -/
theorem snd_mem_of_mem_pieces {p : Nat} {bs : List Nat} {q : Nat × Nat} (h : q ∈ pieces p bs) :
    q.2 ∈ bs := by
  induction bs generalizing p with
  | nil => cases h
  | cons b bs ih =>
    rcases List.mem_cons.mp h with rfl | h
    · exact List.mem_cons_self ..
    · exact List.mem_cons_of_mem _ (ih h)

/-- No piece starts before the first one. -/
theorem le_fst_of_mem_pieces {p : Nat} {bs : List Nat} (h : bs.Pairwise (· < ·))
    (hp : ∀ b ∈ bs, p < b) {q : Nat × Nat} (hq : q ∈ pieces p bs) : p ≤ q.1 := by
  induction bs generalizing p with
  | nil => cases hq
  | cons b bs ih =>
    obtain ⟨hb, hbs⟩ := List.pairwise_cons.mp h
    rcases List.mem_cons.mp hq with rfl | hq
    · exact Nat.le_refl _
    · have hpb := hp b (List.mem_cons_self ..)
      have := ih hbs hb hq
      omega

/-- The lengths add up to the distance from `p` to the last end. -/
theorem sum_gaps {p : Nat} {bs : List Nat} (h : bs.Pairwise (· < ·)) (hp : ∀ b ∈ bs, p < b) :
    p + (gaps p bs).sum = bs.getLastD p := by
  induction bs generalizing p with
  | nil => rfl
  | cons b bs ih =>
    obtain ⟨hb, hbs⟩ := List.pairwise_cons.mp h
    have hpb := hp b (List.mem_cons_self ..)
    have := ih hbs hb
    rw [gaps, List.sum_cons, List.getLastD_cons]
    omega

/-- The last end is the start or one of the ends. -/
theorem getLastD_mem_or {p : Nat} (bs : List Nat) :
    bs = [] ∧ bs.getLastD p = p ∨ bs.getLastD p ∈ bs := by
  cases bs with
  | nil => exact .inl ⟨rfl, rfl⟩
  | cons b bs =>
    refine .inr ?_
    rw [List.getLastD_eq_getLast?, List.getLast?_eq_some_getLast (List.cons_ne_nil b bs)]
    exact List.getLast_mem _

/-- The last of increasing positions is the largest. -/
theorem le_getLastD_of_mem {p : Nat} {bs : List Nat} (h : bs.Pairwise (· < ·)) {b : Nat}
    (hb : b ∈ bs) : b ≤ bs.getLastD p := by
  induction bs generalizing p with
  | nil => cases hb
  | cons c bs ih =>
    obtain ⟨hc, hbs⟩ := List.pairwise_cons.mp h
    rw [List.getLastD_cons]
    rcases List.mem_cons.mp hb with rfl | hb
    · rcases getLastD_mem_or (p := b) bs with ⟨-, h⟩ | h
      · exact Nat.le_of_eq h.symm
      · exact Nat.le_of_lt (hc _ h)
    · exact ih hbs hb

/-- Of increasing positions, none below `e` follows one that is not. -/
theorem filter_lt_of_le {xs zs : List Nat} {z e : Nat} (h : (xs ++ z :: zs).Pairwise (· < ·))
    (hz : e ≤ z) : (xs ++ z :: zs).filter (· < e) = xs.filter (· < e) := by
  have hzs := (List.pairwise_cons.mp (List.pairwise_append.mp h).2.1).1
  have hnone : (z :: zs).filter (· < e) = [] := by
    rw [List.filter_eq_nil_iff]
    intro b hb
    rcases List.mem_cons.mp hb with rfl | hb
    · simpa using hz
    · have := hzs b hb
      simp only [decide_eq_true_eq]
      omega
  rw [List.filter_append, hnone, List.append_nil]

/-- Of increasing positions, those below `e` are the ones in front of the first that is
not. -/
theorem filter_lt_split {xs zs : List Nat} {z e : Nat} (h : (xs ++ z :: zs).Pairwise (· < ·))
    (hxs : ∀ x ∈ xs, x < e) (hz : e ≤ z) : (xs ++ z :: zs).filter (· < e) = xs := by
  rw [filter_lt_of_le h hz, List.filter_eq_self]
  intro b hb
  simpa using hxs b hb

/-- Between the positions in front of a split and the one at it, only the latter can be `e`. -/
theorem mem_split_iff {xs zs : List Nat} {z e : Nat} (h : (xs ++ z :: zs).Pairwise (· < ·))
    (hxs : ∀ x ∈ xs, x < e) (hz : e ≤ z) : e ∈ xs ++ z :: zs ↔ z = e := by
  have hzs := (List.pairwise_cons.mp (List.pairwise_append.mp h).2.1).1
  constructor
  · intro hmem
    rcases List.mem_append.mp hmem with hmem | hmem
    · exact absurd (hxs e hmem) (Nat.lt_irrefl e)
    · rcases List.mem_cons.mp hmem with heq | hmem
      · exact heq.symm
      · exact absurd (hzs e hmem) (Nat.not_lt.mpr hz)
  · rintro rfl
    simp

end SrsUE.Lib
