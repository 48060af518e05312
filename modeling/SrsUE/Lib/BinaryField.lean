import Mathlib.Algebra.Field.ZMod
import Mathlib.Data.List.GetD
import Mathlib.Data.ZMod.Basic
import Mathlib.RingTheory.AdjoinRoot

/-!
# `SrsUE.Lib.BinaryField`: words as polynomials over two elements

A word of `w` bits stands for a polynomial of degree less than `w`, the bit `i` for the coefficient
of `X ^ i`. Words are added with exclusive or. With a word `c`, the remainders modulo `X ^ w + c`
are multiplied: `mulX` shifts by one bit and takes an overflow back with `c`, and `mul` is built
from it.

`elem` gives the remainder that a word stands for. Different words stand for different remainders,
and the operations on words are those of the ring. Where a cipher or a checksum is said to compute
in such a ring, the ring is `Quotient c`.
-/

set_option autoImplicit false

namespace SrsUE.Lib.Binary

open Polynomial

variable {w : Nat}

/-! ### Operations on words -/

/-- The word times `X`. -/
def mulX (c v : BitVec w) : BitVec w := if v.msb then v <<< 1 ^^^ c else v <<< 1

/-- The word times `X ^ i`. -/
def mulXPow (c v : BitVec w) : Nat → BitVec w
  | 0 => v
  | i + 1 => mulX c (mulXPow c v i)

/-- The product, as the sum of `v` times `X ^ i` over the bits `i` of `p`. -/
def mul (c v p : BitVec w) : BitVec w :=
  (List.range w).foldl (fun r i => if p.getLsbD i then r ^^^ mulXPow c v i else r) 0

/-! ### The ring -/

/-- The polynomial of a word. -/
noncomputable def poly (v : BitVec w) : (ZMod 2)[X] :=
  ∑ i ∈ Finset.range w, if v.getLsbD i then X ^ i else 0

/-- `X ^ w + c` -/
noncomputable def modulus (c : BitVec w) : (ZMod 2)[X] := X ^ w + poly c

/-- The remainders modulo `X ^ w + c`. -/
abbrev Quotient (c : BitVec w) : Type := AdjoinRoot (modulus c)

/-- The remainder that a word stands for. -/
noncomputable def elem (c v : BitVec w) : Quotient c := AdjoinRoot.mk (modulus c) (poly v)

/-- The remainder of `X`. -/
noncomputable abbrev root (c : BitVec w) : Quotient c := AdjoinRoot.root (modulus c)

variable (c : BitVec w)

/-- The coefficients are the bits. -/
theorem coeff_poly (v : BitVec w) (i : ℕ) : (poly v).coeff i = if v.getLsbD i then 1 else 0 := by
  rw [poly, Polynomial.finsetSum_coeff]
  by_cases hi : i < w
  · rw [Finset.sum_eq_single_of_mem i (Finset.mem_range.mpr hi)]
    · split <;> simp
    · intro j _ hji
      split <;> simp [Polynomial.coeff_X_pow, hji.symm]
  · rw [BitVec.getLsbD_of_ge v i (Nat.le_of_not_lt hi), if_neg Bool.false_ne_true]
    refine Finset.sum_eq_zero fun j hj => ?_
    have hji : i ≠ j := fun h => hi (h ▸ Finset.mem_range.mp hj)
    split <;> simp [Polynomial.coeff_X_pow, hji]

/-- The degree is below the width. -/
theorem degree_poly_lt (v : BitVec w) : (poly v).degree < w := by
  refine (Polynomial.degree_lt_iff_coeff_zero _ _).mpr fun i hi => ?_
  rw [coeff_poly, BitVec.getLsbD_of_ge v i hi, if_neg Bool.false_ne_true]

/-- Different words are different polynomials. -/
theorem poly_injective : Function.Injective (poly (w := w)) := by
  intro u v h
  refine BitVec.eq_of_getLsbD_eq fun i _ => ?_
  have hcoeff := congrArg (fun p => p.coeff i) h
  simp only [coeff_poly] at hcoeff
  cases hu : u.getLsbD i <;> cases hv : v.getLsbD i <;> simp_all

/-- The modulus is monic. -/
theorem monic_modulus : (modulus c).Monic := Polynomial.monic_X_pow_add (degree_poly_lt c)

/-- The characteristic is two. -/
theorem two_eq_zero : (2 : Quotient c) = 0 := by
  have h : (2 : ZMod 2) = 0 := by decide
  rw [← map_ofNat (AdjoinRoot.of (modulus c)) 2, h, map_zero]

/-- So every element is its own negative. -/
theorem add_self (x : Quotient c) : x + x = 0 := by
  rw [← two_mul, two_eq_zero, zero_mul]

/-- A word is the sum of the powers of the root at its bits. -/
theorem elem_eq_sum (v : BitVec w) :
    elem c v = ∑ i ∈ Finset.range w, if v.getLsbD i then root c ^ i else 0 := by
  rw [elem, poly, map_sum]
  refine Finset.sum_congr rfl fun i _ => ?_
  split
  · rw [map_pow, AdjoinRoot.mk_X]
  · rw [map_zero]

/-- The zero word stands for zero. -/
@[simp] theorem elem_zero : elem c 0#w = 0 := by
  simp [elem_eq_sum]

/-- The word one stands for one. -/
theorem elem_one {w : Nat} (c : BitVec (w + 1)) : elem c 1#(w + 1) = 1 := by
  rw [elem_eq_sum, Finset.sum_range_succ']
  simp [BitVec.getLsbD_one]

/-- The sum of words stands for the sum. -/
theorem elem_xor (u v : BitVec w) : elem c (u ^^^ v) = elem c u + elem c v := by
  rw [elem_eq_sum, elem_eq_sum, elem_eq_sum, ← Finset.sum_add_distrib]
  refine Finset.sum_congr rfl fun i _ => ?_
  rw [BitVec.getLsbD_xor]
  cases u.getLsbD i <;> cases v.getLsbD i <;> simp [add_self]

/-- Different words stand for different remainders. -/
theorem elem_injective : Function.Injective (elem c) := by
  intro u v h
  have hdvd : modulus c ∣ poly u - poly v := AdjoinRoot.mk_eq_mk.mp h
  have hdeg : (poly u - poly v).degree < (modulus c).degree := by
    have hw : (modulus c).degree = w := by
      rw [modulus, add_comm, Polynomial.degree_add_eq_right_of_degree_lt, Polynomial.degree_X_pow]
      rw [Polynomial.degree_X_pow]
      exact degree_poly_lt c
    rw [hw]
    exact lt_of_le_of_lt (Polynomial.degree_sub_le _ _)
      (max_lt (degree_poly_lt u) (degree_poly_lt v))
  have hzero : poly u - poly v = 0 := by
    by_contra hne
    exact (monic_modulus c).not_dvd_of_degree_lt hne hdeg hdvd
  exact poly_injective (sub_eq_zero.mp hzero)

/-- The bits that leave a word at the top come back as `c`. -/
theorem root_pow_width : root c ^ w = elem c c := by
  have h : AdjoinRoot.mk (modulus c) (X ^ w + poly c) = 0 := AdjoinRoot.mk_self
  rw [map_add, map_pow, AdjoinRoot.mk_X] at h
  calc root c ^ w = root c ^ w + (elem c c + elem c c) := by rw [add_self, add_zero]
    _ = (root c ^ w + elem c c) + elem c c := (add_assoc _ _ _).symm
    _ = elem c c := by rw [show root c ^ w + elem c c = 0 from h, zero_add]

/-- The root times a word, with the bit that is shifted out. -/
theorem elem_shiftLeft_one (v : BitVec w) :
    root c * elem c v = elem c (v <<< 1) + if v.msb then elem c c else 0 := by
  cases w with
  | zero => simp [BitVec.eq_nil v, elem_eq_sum]
  | succ n =>
    have hbit : ∀ i ∈ Finset.range n,
        (if (v <<< 1).getLsbD (i + 1) then root c ^ (i + 1) else 0)
          = root c * if v.getLsbD i then root c ^ i else 0 := fun i hi => by
      have hlt := Finset.mem_range.mp hi
      rw [BitVec.getLsbD_shiftLeft]
      simp [hlt, pow_succ']
    rw [elem_eq_sum c v, Finset.sum_range_succ, mul_add, Finset.mul_sum, elem_eq_sum c (v <<< 1),
      Finset.sum_range_succ', Finset.sum_congr rfl hbit, BitVec.msb_eq_getLsbD_last]
    have htop : root c * root c ^ n = elem c c := by rw [← pow_succ', root_pow_width]
    simp [htop]

/-- `mulX` is multiplication by the root. -/
theorem elem_mulX (v : BitVec w) : elem c (mulX c v) = root c * elem c v := by
  rw [elem_shiftLeft_one, mulX]
  split
  · rw [elem_xor]
  · rw [add_zero]

/-- `mulXPow` is multiplication by a power of it. -/
theorem elem_mulXPow (v : BitVec w) (i : ℕ) : elem c (mulXPow c v i) = root c ^ i * elem c v := by
  induction i with
  | zero => rw [mulXPow, pow_zero, one_mul]
  | succ i ih => rw [mulXPow, elem_mulX, ih, pow_succ', mul_assoc]

/-- The product of words stands for the product of the remainders. -/
theorem elem_mul (v p : BitVec w) : elem c (mul c v p) = elem c v * elem c p := by
  have hfold : ∀ n, elem c
      ((List.range n).foldl (fun r i => if p.getLsbD i then r ^^^ mulXPow c v i else r) 0)
      = ∑ i ∈ Finset.range n, elem c v * if p.getLsbD i then root c ^ i else 0 := fun n => by
    induction n with
    | zero => simp
    | succ n ih =>
      rw [List.range_succ, List.foldl_append, Finset.sum_range_succ, ← ih]
      simp only [List.foldl_cons, List.foldl_nil]
      split
      · rw [elem_xor, elem_mulXPow, mul_comm (root c ^ n)]
      · rw [mul_zero, add_zero]
  rw [mul, hfold, elem_eq_sum c p, Finset.mul_sum]

/-- Horner's rule. The sum over the words `m`, each times a power of `p`, the last one times `p`
itself. -/
theorem elem_horner (p : BitVec w) (m : List (BitVec w)) :
    elem c (m.foldl (fun e v => mul c (e ^^^ v) p) 0)
      = ∑ i ∈ Finset.range m.length, elem c (m.getD i 0) * elem c p ^ (m.length - i) := by
  induction m using List.reverseRecOn with
  | nil => simp
  | append_singleton m v ih =>
    have hpow : ∀ i ∈ Finset.range m.length,
        elem c ((m ++ [v]).getD i 0) * elem c p ^ (m.length + 1 - i)
          = elem c (m.getD i 0) * elem c p ^ (m.length - i) * elem c p := fun i hi => by
      have hlt := Finset.mem_range.mp hi
      rw [List.getD_append _ _ _ _ hlt, Nat.succ_sub hlt.le, pow_succ, mul_assoc]
    have hlast : (m ++ [v]).getD m.length 0 = v := by
      rw [List.getD_append_right _ _ _ _ (Nat.le_refl _), Nat.sub_self]
      rfl
    rw [List.foldl_append, List.foldl_cons, List.foldl_nil, elem_mul, elem_xor, ih,
      List.length_append, List.length_singleton, Finset.sum_range_succ, Finset.sum_congr rfl hpow,
      hlast, Nat.add_sub_cancel_left, pow_one, add_mul, Finset.sum_mul]

end SrsUE.Lib.Binary
