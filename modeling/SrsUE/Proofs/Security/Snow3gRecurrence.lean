import Mathlib.Algebra.CubicDiscriminant
import Mathlib.Tactic.LinearCombination
import SrsUE.Lib.BinaryField
import SrsUE.Security.Snow3g

/-!
# `SrsUE.Proofs.Security.Snow3gRecurrence`: the shift register of SNOW 3G

The words of the shift register stand for elements of an extension of degree four over the
remainders modulo `X ^ 8 + X ^ 7 + X ^ 5 + X ^ 3 + 1`. The shifts by one octet with the words of
`MULalpha` and `DIValpha` multiply and divide by the root `alpha`. Different words stand for
different elements (`value_injective`). So one linear recurrence determines the words that leave the
register, from any state and for as long as the keystream runs (`lfsr_recurrence`).
-/

set_option autoImplicit false

namespace SrsUE.Security

open SrsUE.Lib Polynomial

attribute [local instance] neZero_registers

/-! ### The octets of a word -/

/-- The octet `k` of a word, from the least significant one. -/
def octet (w : BitVec 32) (k : Nat) : BitVec 8 := (w >>> (8 * k)).setWidth 8

/-- An octet of a sum. -/
theorem octet_xor (u v : BitVec 32) (k : Nat) : octet (u ^^^ v) k = octet u k ^^^ octet v k := by
  rw [octet, BitVec.ushiftRight_xor_distrib, BitVec.setWidth_xor]
  rfl

/-- An octet of a conjunction. -/
theorem octet_and (u v : BitVec 32) (k : Nat) : octet (u &&& v) k = octet u k &&& octet v k := by
  rw [octet, BitVec.ushiftRight_and_distrib, BitVec.setWidth_and]
  rfl

section
variable (a b c d : BitVec 8)

/-- The first octet of a word. -/
theorem octet_word_three : octet (word a b c d) 3 = a := by
  ext i hi
  simp [octet, word]
  grind

/-- The second octet of a word. -/
theorem octet_word_two : octet (word a b c d) 2 = b := by
  ext i hi
  simp [octet, word]
  grind

/-- The third octet of a word. -/
theorem octet_word_one : octet (word a b c d) 1 = c := by
  ext i hi
  simp [octet, word]
  grind

/-- The last octet of a word. -/
theorem octet_word_zero : octet (word a b c d) 0 = d := by
  ext i hi
  simp [octet, word]

end

/-- A shift by one octet moves the octets up. -/
theorem octet_shiftLeft (w : BitVec 32) {k : Nat} (h : k < 3) :
    octet (w <<< 8) (k + 1) = octet w k := by
  have hpos : ∀ i, 8 * (k + 1) + i = 8 * k + i + 8 := fun i => by omega
  ext i hi
  simp [octet, hpos]
  omega

/-- A shift back moves them down. -/
theorem octet_shiftRight (w : BitVec 32) (k : Nat) : octet (w >>> 8) k = octet w (k + 1) := by
  rw [octet, octet, ← BitVec.shiftRight_add, Nat.mul_succ, Nat.add_comm]

/-! ### The extension -/

/-- The remainders modulo `X ^ 8 + X ^ 7 + X ^ 5 + X ^ 3 + 1`. -/
abbrev OctetRing : Type := Binary.Quotient 0xa9#8

noncomputable abbrev beta : OctetRing := Binary.root 0xa9#8

noncomputable def alphaModulus : OctetRing[X] :=
  X ^ 4 + C (beta ^ 23) * X ^ 3 + C (beta ^ 245) * X ^ 2 + C (beta ^ 48) * X + C (beta ^ 239)

abbrev WordRing : Type := AdjoinRoot alphaModulus

noncomputable abbrev alpha : WordRing := AdjoinRoot.root alphaModulus

/-- An octet as an element of the extension. -/
noncomputable def scalar (b : BitVec 8) : WordRing :=
  AdjoinRoot.of alphaModulus (Binary.elem 0xa9 b)

/-- `beta` in the extension. -/
noncomputable def betaScalar : WordRing := AdjoinRoot.of alphaModulus beta

/-- What a word stands for, its octets as the coefficients. -/
noncomputable def value (w : BitVec 32) : WordRing :=
  scalar (octet w 3) * alpha ^ 3 + scalar (octet w 2) * alpha ^ 2 + scalar (octet w 1) * alpha +
    scalar (octet w 0)

/-- The inverse of `alpha`. -/
noncomputable def alphaInv : WordRing :=
  betaScalar ^ 16 * alpha ^ 3 + betaScalar ^ 39 * alpha ^ 2 + betaScalar ^ 6 * alpha +
    betaScalar ^ 64

/-- The extension has characteristic two. -/
theorem wordRing_two : (2 : WordRing) = 0 := by
  rw [← map_ofNat (AdjoinRoot.of alphaModulus) 2, Binary.two_eq_zero, map_zero]

/-- The zero octet stands for zero. -/
theorem scalar_zero : scalar 0#8 = 0 := by
  rw [scalar, Binary.elem_zero, map_zero]

/-- The sum of octets stands for the sum. -/
theorem scalar_xor (a b : BitVec 8) : scalar (a ^^^ b) = scalar a + scalar b := by
  rw [scalar, Binary.elem_xor, map_add]
  rfl

/-- `mulx` is multiplication by `X` in the remainders. -/
theorem mulx_eq (v c : BitVec 8) : mulx v c = Binary.mulX c v := by
  have hmsb : v &&& 0x80 ≠ 0 ↔ v.msb = true := by
    revert v
    decide
  rw [mulx, Binary.mulX]
  exact if_congr hmsb rfl rfl

/-- `mulx_pow` is multiplication by a power of `X`. -/
theorem mulxPow_eq (v c : BitVec 8) (i : Nat) : mulxPow v i c = Binary.mulXPow c v i := by
  induction i with
  | zero => rfl
  | succ i ih => rw [mulxPow, ih, mulx_eq, Binary.mulXPow]

/-- So it stands for multiplication by a power of `beta`. -/
theorem scalar_mulxPow (b : BitVec 8) (i : Nat) :
    scalar (mulxPow b i 0xa9) = betaScalar ^ i * scalar b := by
  rw [scalar, mulxPow_eq, Binary.elem_mulXPow, map_mul, map_pow]
  rfl

/-- The sum of words stands for the sum. -/
theorem value_xor (u v : BitVec 32) : value (u ^^^ v) = value u + value v := by
  simp only [value, octet_xor, scalar_xor]
  ring

/-- A word stands for its octets, as coefficients of powers of `alpha`. -/
theorem value_word (a b c d : BitVec 8) :
    value (word a b c d) = scalar a * alpha ^ 3 + scalar b * alpha ^ 2 + scalar c * alpha +
      scalar d := by
  rw [value, octet_word_three, octet_word_two, octet_word_one, octet_word_zero]

/-! ### Multiplication and division -/

/-- `alpha` is a root of the modulus of the extension. -/
theorem alpha_root :
    alpha ^ 4 + betaScalar ^ 23 * alpha ^ 3 + betaScalar ^ 245 * alpha ^ 2 + betaScalar ^ 48 * alpha
      + betaScalar ^ 239 = 0 := by
  have h : AdjoinRoot.mk alphaModulus (X ^ 4 + C (beta ^ 23) * X ^ 3 + C (beta ^ 245) * X ^ 2 +
      C (beta ^ 48) * X
      + C (beta ^ 239)) = 0 := AdjoinRoot.mk_self
  simp only [map_add, map_mul, map_pow, AdjoinRoot.mk_X, AdjoinRoot.mk_C] at h
  exact h

/-- The powers of `beta` have the period 255. -/
theorem betaScalar_pow_period : betaScalar ^ 255 = 1 := by
  have hword : Binary.mulXPow 0xa9#8 1#8 255 = 1#8 := by decide +kernel
  have helem := Binary.elem_mulXPow 0xa9#8 1#8 255
  rw [hword, Binary.elem_one, mul_one] at helem
  rw [betaScalar, ← map_pow, ← helem, map_one]

/-- A shift to the left, with the word of `MULalpha` for the octet that leaves. -/
theorem value_mulAlpha (w : BitVec 32) :
    value ((w <<< 8 &&& 0xffffff00#32) ^^^ mulAlpha ((w >>> 24).setWidth 8)) = alpha * value w := by
  have hmask : octet 0xffffff00#32 3 = BitVec.allOnes 8 ∧ octet 0xffffff00#32 2 = BitVec.allOnes 8
      ∧ octet 0xffffff00#32 1 = BitVec.allOnes 8 ∧ octet 0xffffff00#32 0 = 0#8 :=
        ⟨rfl, rfl, rfl, rfl⟩
  have hshift : value (w <<< 8 &&& 0xffffff00#32)
      = scalar (octet w 2) * alpha ^ 3 + scalar (octet w 1) * alpha ^ 2 +
        scalar (octet w 0) * alpha := by
    rw [value, octet_and, octet_and, octet_and, octet_and, hmask.1, hmask.2.1, hmask.2.2.1,
      hmask.2.2.2, BitVec.and_allOnes, BitVec.and_allOnes, BitVec.and_allOnes, BitVec.and_zero,
      octet_shiftLeft w (by decide), octet_shiftLeft w (by decide), octet_shiftLeft w (by decide),
      scalar_zero, add_zero]
  have htop : (w >>> 24).setWidth 8 = octet w 3 := rfl
  rw [value_xor, hshift, htop, mulAlpha, value_word, scalar_mulxPow, scalar_mulxPow, scalar_mulxPow,
    scalar_mulxPow, value]
  linear_combination scalar (octet w 3) * alpha_root - scalar (octet w 3) * alpha ^ 4 * wordRing_two

/-- `alphaInv` is the inverse of `alpha`. -/
theorem alpha_mul_alphaInv : alpha * alphaInv = 1 := by
  rw [alphaInv]
  linear_combination betaScalar ^ 16 * alpha_root
    + (1 - betaScalar ^ 6 * alpha ^ 2) * betaScalar_pow_period - betaScalar ^ 255 * wordRing_two

/-- A shift to the right, with the word of `DIValpha` for the octet that leaves. -/
theorem value_divAlpha (w : BitVec 32) :
    value ((w >>> 8 &&& 0x00ffffff#32) ^^^ divAlpha (w.setWidth 8)) = alphaInv * value w := by
  have hmask : octet 0x00ffffff#32 3 = 0#8 ∧ octet 0x00ffffff#32 2 = BitVec.allOnes 8
      ∧ octet 0x00ffffff#32 1 = BitVec.allOnes 8 ∧ octet 0x00ffffff#32 0 = BitVec.allOnes 8 :=
        ⟨rfl, rfl, rfl, rfl⟩
  have hshift : value (w >>> 8 &&& 0x00ffffff#32)
      = scalar (octet w 3) * alpha ^ 2 + scalar (octet w 2) * alpha + scalar (octet w 1) := by
    rw [value, octet_and, octet_and, octet_and, octet_and, hmask.1, hmask.2.1, hmask.2.2.1,
      hmask.2.2.2, BitVec.and_allOnes, BitVec.and_allOnes, BitVec.and_allOnes, BitVec.and_zero,
      octet_shiftRight, octet_shiftRight, octet_shiftRight, scalar_zero, zero_mul, zero_add]
  have hlow : w.setWidth 8 = octet w 0 := rfl
  have hdiv : value (divAlpha (octet w 0)) = alphaInv * scalar (octet w 0) := by
    rw [divAlpha, value_word, scalar_mulxPow, scalar_mulxPow, scalar_mulxPow, scalar_mulxPow,
      alphaInv]
    ring
  rw [value_xor, hshift, hlow, hdiv, value]
  linear_combination -(scalar (octet w 3) * alpha ^ 2 + scalar (octet w 2) * alpha +
    scalar (octet w 1))
    * alpha_mul_alphaInv

/-! ### Different words stand for different elements -/

/-- A word is known by its octets. -/
theorem word_ext {u v : BitVec 32} (h : ∀ k < 4, octet u k = octet v k) : u = v := by
  refine BitVec.eq_of_getLsbD_eq fun i hi => ?_
  have hbit := congrArg (fun b => b.getLsbD (i % 8)) (h (i / 8) (by omega))
  have hpos : 8 * (i / 8) + i % 8 = i := Nat.div_add_mod i 8
  simpa [octet, hpos, Nat.mod_lt i (by decide : 8 > 0)] using hbit

/-- The octets as a polynomial. -/
noncomputable def octetPoly (w : BitVec 32) : Cubic OctetRing :=
  ⟨Binary.elem 0xa9 (octet w 3), Binary.elem 0xa9 (octet w 2), Binary.elem 0xa9 (octet w 1),
    Binary.elem 0xa9 (octet w 0)⟩

/-- A word stands for the remainder of its octets as a polynomial. -/
theorem value_eq_mk (w : BitVec 32) : value w = AdjoinRoot.mk alphaModulus
    (octetPoly w).toPoly := by
  rw [Cubic.toPoly, octetPoly]
  simp only [map_add, map_mul, map_pow, AdjoinRoot.mk_X, AdjoinRoot.mk_C]
  rfl

/-- Different words stand for different elements. -/
theorem value_injective : Function.Injective value := by
  intro u v h
  have hnontrivial : Nontrivial OctetRing :=
    ⟨Binary.elem 0xa9 0#8, Binary.elem 0xa9 1#8, fun h =>
      absurd (Binary.elem_injective _ h) (by decide)⟩
  have hmodulus : alphaModulus = X ^ 4
      + (Cubic.mk (beta ^ 23) (beta ^ 245) (beta ^ 48) (beta ^ 239)).toPoly := by
    rw [alphaModulus, Cubic.toPoly]
    ring
  have hcubic : ∀ p : Cubic OctetRing, p.toPoly.degree < (4 : ℕ) := fun p => by
    rw [Cubic.toPoly]
    exact Polynomial.degree_cubic_lt
  have hmonic : alphaModulus.Monic := by
    rw [hmodulus]
    exact Polynomial.monic_X_pow_add (hcubic _)
  have hdegree : alphaModulus.degree = (4 : ℕ) := by
    rw [hmodulus, Polynomial.degree_add_eq_left_of_degree_lt, Polynomial.degree_X_pow]
    rw [Polynomial.degree_X_pow]
    exact hcubic _
  rw [value_eq_mk, value_eq_mk, AdjoinRoot.mk_eq_mk] at h
  have hzero : (octetPoly u).toPoly - (octetPoly v).toPoly = 0 := by
    by_contra hne
    refine hmonic.not_dvd_of_degree_lt hne ?_ h
    rw [hdegree]
    exact lt_of_le_of_lt (Polynomial.degree_sub_le _ _) (max_lt (hcubic _) (hcubic _))
  have hoctets : octetPoly u = octetPoly v := (Cubic.toPoly_injective _ _).mp (sub_eq_zero.mp hzero)
  rw [octetPoly, octetPoly, Cubic.mk.injEq] at hoctets
  obtain ⟨h3, h2, h1, h0⟩ := hoctets
  refine word_ext fun k hk => ?_
  match k, hk with
  | 0, _ => exact Binary.elem_injective _ h0
  | 1, _ => exact Binary.elem_injective _ h1
  | 2, _ => exact Binary.elem_injective _ h2
  | 3, _ => exact Binary.elem_injective _ h3

/-! ### Runs -/

namespace Snow3g

variable (s : Snow3g)

/-- The feedback of the register stands for the recurrence of the cipher. -/
theorem value_feedback :
    value s.feedback = alpha * value (s.lfsr 0) + value (s.lfsr 2) +
      alphaInv * value (s.lfsr 11) := by
  have hmul := value_mulAlpha (s.lfsr 0)
  have hdiv := value_divAlpha (s.lfsr 11)
  rw [value_xor] at hmul hdiv
  rw [feedback, value_xor, value_xor, value_xor, value_xor]
  linear_combination hmul + hdiv

/-- A clock moves the words of the register down. -/
theorem lfsr_keyStreamStep {i : Nat} (h : i < 15) :
    s.keyStreamStep.lfsr ⟨i, by omega⟩ = s.lfsr ⟨i + 1, by omega⟩ := by
  have hnext : (⟨i, by omega⟩ + 1 : Fin 16) = ⟨i + 1, by omega⟩ :=
    Fin.ext (Nat.mod_eq_of_lt (show i + 1 < 16 by omega))
  rw [← hnext]
  exact if_pos h

/-- The last word is the feedback. -/
theorem lfsr_keyStreamStep_last : s.keyStreamStep.lfsr 15 = s.feedback := rfl

/-- What is in the register leaves it one word after the other. -/
theorem lfsr_iterate (n : ℕ) {i : ℕ} (h : i < 16) :
    (keyStreamStep^[n] s).lfsr ⟨i, h⟩ = (keyStreamStep^[n + i] s).lfsr 0 := by
  induction i generalizing n with
  | zero => rfl
  | succ i ih =>
    rw [← lfsr_keyStreamStep _ (Nat.lt_of_succ_lt_succ h),
      ← Function.iterate_succ_apply' keyStreamStep n s, ih (n + 1), Nat.add_right_comm,
      Nat.add_assoc n i 1]

/-- The word that leaves the register after `n` clocks of the keystream. -/
def lfsrWord (n : ℕ) : BitVec 32 := (keyStreamStep^[n] s).lfsr 0

/-- The words that leave the register follow the recurrence of SNOW 3G, and no other word does. -/
theorem lfsr_recurrence :
    alpha * alphaInv = 1 ∧
    ∀ (n : ℕ) (w : BitVec 32),
      value w = alpha * value (s.lfsrWord n) + value (s.lfsrWord (n + 2)) +
        alphaInv * value (s.lfsrWord (n + 11))
        ↔ w = s.lfsrWord (n + 16) := by
  refine ⟨alpha_mul_alphaInv, fun n w => ?_⟩
  have hlast : s.lfsrWord (n + 16) = (keyStreamStep^[n] s).feedback := by
    rw [lfsrWord, ← lfsr_keyStreamStep_last, ← Function.iterate_succ_apply' keyStreamStep n s]
    exact (lfsr_iterate s (n + 1) (by decide : 15 < 16)).symm
  have htwo : (keyStreamStep^[n] s).lfsr 2 = s.lfsrWord (n + 2) :=
    lfsr_iterate s n (by decide : 2 < 16)
  have heleven : (keyStreamStep^[n] s).lfsr 11 = s.lfsrWord (n + 11) :=
    lfsr_iterate s n (by decide : 11 < 16)
  have hnext : value (s.lfsrWord (n + 16))
      = alpha * value (s.lfsrWord n) + value (s.lfsrWord (n + 2)) +
        alphaInv * value (s.lfsrWord (n + 11)) := by
    rw [hlast, value_feedback, htwo, heleven]
    rfl
  rw [← hnext, value_injective.eq_iff]

end Snow3g

end SrsUE.Security
