import Mathlib.LinearAlgebra.Matrix.Notation
import SrsUE.Lib.BinaryField
import SrsUE.Lib.BitBlocks

/-!
# `SrsUE.Lib.Aes`: the block cipher with a key of 128 bits

AES as it is defined, on matrices over the ring of the octets: an octet is a polynomial over two
elements, taken modulo `X ^ 8 + X ^ 4 + X ^ 3 + X + 1`. The S-box inverts in this ring, MixColumns
multiplies by a matrix over it, and a round constant is a power of `X`.
-/

set_option autoImplicit false

namespace SrsUE.Lib.Aes

open SrsUE.Lib.Binary

local instance neZero_four : NeZero 4 := ⟨by decide⟩

/-- An octet, as an element of the ring. -/
abbrev Octet := Quotient 0x1b#8

abbrev State := Matrix (Fin 4) (Fin 4) Octet

/-- The word that stands for an octet. -/
noncomputable def word : Octet → BitVec 8 := Function.invFun (elem 0x1b#8)

/-- The affine part of the S-box. -/
def affine (b : BitVec 8) : BitVec 8 :=
  b ^^^ b.rotateLeft 1 ^^^ b.rotateLeft 2 ^^^ b.rotateLeft 3 ^^^ b.rotateLeft 4 ^^^ 0x63#8

/-- The S-box: the inverse, zero for zero, and the affine part. -/
noncomputable def subByte (x : Octet) : Octet := elem 0x1b#8 (affine (word (Ring.inverse x)))

noncomputable def subBytes (s : State) : State := s.map subByte

/-- The row `i` is rotated by `i`. -/
def shiftRows (s : State) : State := Matrix.of fun i j => s i (j + i)

/-- The matrix of MixColumns. -/
noncomputable def mixMatrix : State :=
  let x := root 0x1b#8
  !![x, x + 1, 1, 1; 1, x, x + 1, 1; 1, 1, x, x + 1; x + 1, 1, 1, x]

noncomputable def mixColumns (s : State) : State := mixMatrix * s

/-- The words of the key expansion. The word `i` is the column `i` of the key, and later ones are
made from the word before and the word four before. -/
noncomputable def keyWord (key : State) : ℕ → Fin 4 → Octet
  | 0 => fun i => key i 0
  | 1 => fun i => key i 1
  | 2 => fun i => key i 2
  | 3 => fun i => key i 3
  | n + 4 =>
    let last := keyWord key (n + 3)
    if n % 4 = 0 then
      fun i => keyWord key n i + subByte (last (i + 1)) + if i = 0 then root 0x1b#8 ^ (n / 4) else 0
    else fun i => keyWord key n i + last i

/-- The columns of the round key `r` are the words from `4 * r` on. -/
noncomputable def roundKey (key : State) (r : ℕ) : State :=
  Matrix.of fun i j => keyWord key (4 * r + j) i

/-- The state after the round `r`, of those that mix columns. -/
noncomputable def rounds (key input : State) : ℕ → State
  | 0 => input + roundKey key 0
  | r + 1 => mixColumns (shiftRows (subBytes (rounds key input r))) + roundKey key (r + 1)

noncomputable def encrypt (key input : State) : State :=
  shiftRows (subBytes (rounds key input 9)) + roundKey key 10

/-! ### Blocks of bits -/

/-- The state that is loaded from a block, column after column. -/
noncomputable def load (b : BitVec 128) : State :=
  Matrix.of fun i j => elem 0x1b#8 (b.extractLsb' (8 * (15 - (4 * j + i))) 8)

/-- The octets of a state, column after column. -/
noncomputable def store (s : State) : BitVec 128 :=
  block 128 (bits (List.ofFn fun n : Fin 16 => UInt8.ofBitVec
    (word (s (Fin.ofNat 4 n) (Fin.ofNat 4 (n / 4))))))

/-- A block of 128 bits under a key of 128 bits. -/
noncomputable def cipher (key b : BitVec 128) : BitVec 128 := store (encrypt (load key) (load b))

/-! ### Words -/

/-- An octet is known from its element. -/
theorem word_elem (b : BitVec 8) : word (elem 0x1b#8 b) = b :=
  Function.leftInverse_invFun (elem_injective _) b

/-- The S-box of an octet, when its inverse is known. -/
theorem subByte_elem {b v : BitVec 8} (h : b = 0#8 ∧ v = 0#8 ∨ mul 0x1b#8 b v = 1#8) :
    subByte (elem 0x1b#8 b) = elem 0x1b#8 (affine v) := by
  have hinverse : Ring.inverse (elem 0x1b#8 b) = elem 0x1b#8 v := by
    obtain ⟨rfl, rfl⟩ | hmul := h
    · rw [elem_zero, Ring.inverse_zero]
    · have hone : elem 0x1b#8 b * elem 0x1b#8 v = 1 := by rw [← elem_mul, hmul, elem_one]
      have hunit : IsUnit (elem 0x1b#8 b) := IsUnit.of_mul_eq_one _ hone
      calc Ring.inverse (elem 0x1b#8 b)
          = Ring.inverse (elem 0x1b#8 b) * (elem 0x1b#8 b * elem 0x1b#8 v) := by
            rw [hone, mul_one]
        _ = elem 0x1b#8 v := Ring.inverse_mul_cancel_left _ _ hunit
  rw [subByte, hinverse, word_elem]

end SrsUE.Lib.Aes
