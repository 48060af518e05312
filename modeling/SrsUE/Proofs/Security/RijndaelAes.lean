import Mathlib.Tactic.LinearCombination
import SrsUE.Lib.Aes
import SrsUE.Proofs.Security.OctetBlocks
import SrsUE.Security.Rijndael

/-!
# `SrsUE.Proofs.Security.RijndaelAes`: the block cipher is AES

`liblte_security.cc` encrypts with a table for the S-box, a table for the multiplication by `X` and
a MixColumns that multiplies nothing else. With `toMatrix`, which reads a state as a matrix over the
ring of the octets, each of its functions is the step of AES with the same name, and `roundKeyAt`
runs through the key expansion four words at a time.

`ofOctets_rijndaelEncrypt` puts them together for every key and block.
-/

set_option autoImplicit false

namespace SrsUE.Security

open SrsUE.Lib.Binary SrsUE.Lib
open SrsUE.Upper (Octets)

namespace StateStruct

/-- The state as a matrix over the ring of the octets. -/
noncomputable def toMatrix (s : StateStruct) : Aes.State :=
  Matrix.of fun i j => elem 0x1b#8 (s.cell i j)

/-- The entries of the matrix. -/
theorem toMatrix_apply (s : StateStruct) (i j : Fin 4) : s.toMatrix i j = elem 0x1b#8
    (s.cell i j) :=
  rfl

end StateStruct

open StateStruct

/-! ### The tables -/

/-- The affine part of the S-box the other way. -/
def unaffine (b : BitVec 8) : BitVec 8 :=
  b.rotateLeft 1 ^^^ b.rotateLeft 3 ^^^ b.rotateLeft 6 ^^^ 0x05#8

/-- The S-box ends with the affine map. -/
theorem sBox_eq_affine (b : BitVec 8) : sBox b = Aes.affine (unaffine (sBox b)) := by
  revert b
  decide +kernel

/-- In front of it there is the inverse, or zero. Checked on all octets. -/
theorem mul_unaffine_sBox (b : BitVec 8) :
    b = 0#8 ∧ unaffine (sBox b) = 0#8 ∨ mul 0x1b#8 b (unaffine (sBox b)) = 1#8 := by
  revert b
  decide +kernel

/-- The table `S` is the S-box. -/
theorem elem_sBox (b : BitVec 8) : elem 0x1b#8 (sBox b) = Aes.subByte (elem 0x1b#8 b) := by
  rw [Aes.subByte_elem (mul_unaffine_sBox b), ← sBox_eq_affine]

/-- `xTime` is multiplication by `X`. -/
theorem xTime_eq_mulX (b : BitVec 8) : xTime b = mulX 0x1b#8 b := by
  revert b
  decide +kernel

/-- The table `X_TIME` multiplies by `X`. -/
theorem elem_xTime (b : BitVec 8) : elem 0x1b#8 (xTime b) = root 0x1b#8 * elem 0x1b#8 b := by
  rw [xTime_eq_mulX, elem_mulX]

/-! ### The functions of a round -/

/-- The round key is added. -/
theorem toMatrix_keyAdd (s rk : StateStruct) : (keyAdd s rk).toMatrix = s.toMatrix +
    rk.toMatrix := by
  ext i j
  rw [toMatrix_apply, keyAdd, cell_of, elem_xor]
  rfl

/-- Each octet is substituted. -/
theorem toMatrix_byteSub (s : StateStruct) : (byteSub s).toMatrix = Aes.subBytes s.toMatrix := by
  ext i j
  rw [toMatrix_apply, byteSub, cell_of, elem_sBox]
  rfl

/-- The rows are rotated. -/
theorem toMatrix_shiftRow (s : StateStruct) : (shiftRow s).toMatrix = Aes.shiftRows s.toMatrix := by
  ext i j
  rw [toMatrix_apply, shiftRow, cell_of]
  fin_cases i <;> fin_cases j <;> rfl

/-- A sum of four and twice a part of it is a product with `X` and `X + 1`, as two is zero. -/
theorem toMatrix_mixColumn (s : StateStruct) :
    (mixColumn s).toMatrix = Aes.mixColumns s.toMatrix := by
  ext i j
  have htwo : (2 : Aes.Octet) = 0 := two_eq_zero 0x1b#8
  rw [toMatrix_apply, mixColumn, cell_of, elem_xor, elem_xor, elem_xTime, elem_xor, elem_xor,
    elem_xor, elem_xor, Aes.mixColumns, Matrix.mul_apply, Fin.sum_univ_four]
  simp only [← toMatrix_apply]
  match i with
  | 0 =>
    show _ = root _ * _ + (root _ + 1) * _ + 1 * _ + 1 * _
    rw [show (0 : Fin 4) + 1 = 1 from rfl]
    linear_combination s.toMatrix 0 j * htwo
  | 1 =>
    show _ = 1 * _ + root _ * _ + (root _ + 1) * _ + 1 * _
    rw [show (1 : Fin 4) + 1 = 2 from rfl]
    linear_combination s.toMatrix 1 j * htwo
  | 2 =>
    show _ = 1 * _ + 1 * _ + root _ * _ + (root _ + 1) * _
    rw [show (2 : Fin 4) + 1 = 3 from rfl]
    linear_combination s.toMatrix 2 j * htwo
  | 3 =>
    show _ = (root _ + 1) * _ + 1 * _ + 1 * _ + root _ * _
    rw [show (3 : Fin 4) + 1 = 0 from rfl]
    linear_combination s.toMatrix 3 j * htwo

/-! ### The round keys -/

/-- The first column of the next round key. -/
theorem nextRoundKey_first (rk : StateStruct) (roundConst : BitVec 8) (i : Fin 4) :
    (nextRoundKey rk roundConst).toMatrix i 0
      = rk.toMatrix i 0 + Aes.subByte (rk.toMatrix (i + 1) 3) + if i = 0 then elem 0x1b#8 roundConst
        else 0 := by
  rw [toMatrix_apply, nextRoundKey, cell_of, toMatrix_apply, toMatrix_apply, ← elem_sBox]
  match i with
  | 0 =>
    show elem _ (sBox _ ^^^ _ ^^^ _) = _
    rw [elem_xor, elem_xor, if_pos rfl, add_comm (elem _ (rk.cell 0 0))]
    rfl
  | 1 | 2 | 3 =>
    show elem _ (sBox _ ^^^ _) = _
    rw [elem_xor, if_neg (by decide), add_zero, add_comm]
    rfl

/-- The other columns of the next round key. -/
theorem nextRoundKey_succ (rk : StateStruct) (roundConst : BitVec 8) (i : Fin 4) (j : Fin 3) :
    (nextRoundKey rk roundConst).toMatrix i j.succ
      = rk.toMatrix i j.succ + (nextRoundKey rk roundConst).toMatrix i j.castSucc := by
  rw [toMatrix_apply, toMatrix_apply, toMatrix_apply, ← elem_xor]
  refine congrArg _ ?_
  rw [nextRoundKey, cell_of, cell_of]
  fin_cases j <;> rfl

/-- The round constants are the powers of `X`. -/
theorem elem_roundConst (key : Octets 16) (r : ℕ) :
    elem 0x1b#8 (roundKeyAt key r).2 = root 0x1b#8 ^ r := by
  induction r with
  | zero => rw [pow_zero, ← elem_one 0x1b#8]; rfl
  | succ r ih =>
    show elem _ (xTime (roundKeyAt key r).2) = _
    rw [elem_xTime, ih, pow_succ']

/-- The words of the next round key, from those of this one. -/
theorem keyWord_next (key : Aes.State) (r : ℕ) (i : Fin 4) :
    Aes.keyWord key (4 * r + 4) i = Aes.keyWord key (4 * r) i +
      Aes.subByte (Aes.keyWord key (4 * r + 3) (i + 1))
        + (if i = 0 then root 0x1b#8 ^ r else 0) ∧
      ∀ j : Fin 3, Aes.keyWord key (4 * r + 4 + j.succ) i
        = Aes.keyWord key (4 * r + j.succ) i + Aes.keyWord key (4 * r + 4 + j.castSucc) i := by
  constructor
  · rw [Aes.keyWord, if_pos (Nat.mul_mod_right 4 r), Nat.mul_div_cancel_left r (by decide)]
  · intro j
    have hindex : 4 * r + 4 + j.succ = 4 * r + j.succ + 4 := by omega
    have hmod : (4 * r + j.succ) % 4 ≠ 0 := by
      have hval : (j.succ : ℕ) = j + 1 := rfl
      omega
    rw [hindex, Aes.keyWord, if_neg hmod]
    have hlast : 4 * r + j.succ + 3 = 4 * r + 4 + j.castSucc := by
      have hval : (j.succ : ℕ) = j + 1 := rfl
      have hval' : (j.castSucc : ℕ) = j := rfl
      omega
    rw [hlast]

/-- The key schedule runs through the key expansion. -/
theorem toMatrix_roundKeyAt (key : Octets 16) (r : ℕ) :
    (roundKeyAt key r).1.toMatrix = Aes.roundKey (load key).toMatrix r := by
  induction r with
  | zero =>
    ext i j
    show (load key).toMatrix i j = Aes.keyWord _ (0 + (j : ℕ)) i
    fin_cases j <;> rfl
  | succ r ih =>
    have hcell : ∀ (i j : Fin 4),
        (roundKeyAt key r).1.toMatrix i j = Aes.keyWord (load key).toMatrix (4 * r + j) i :=
          fun i j => by
      rw [ih]
      rfl
    ext i j
    show (nextRoundKey (roundKeyAt key r).1 (roundKeyAt key r).2).toMatrix i j
      = Aes.keyWord _ (4 * r + 4 + (j : ℕ)) i
    obtain ⟨hfirst, hsucc⟩ := keyWord_next (load key).toMatrix r i
    -- Column after column, each from the one before.
    induction j using Fin.induction with
    | zero =>
      rw [nextRoundKey_first, hcell, hcell, elem_roundConst]
      exact hfirst.symm
    | succ j ihj => rw [nextRoundKey_succ, hsucc, ihj, hcell]

/-- The key schedule goes round by round. -/
theorem get_rijndaelKeySchedule (key : Octets 16) (i : Fin 11) :
    (rijndaelKeySchedule key).get i = (roundKeyAt key i).1 := by
  simp only [rijndaelKeySchedule, Vector.get, Vector.toArray_ofFn, Array.getElem_ofFn]
  rfl

/-! ### Encryption -/

/-- The state before the last round. -/
theorem toMatrix_rounds (key input : Octets 16) (n : ℕ) (hn : n ≤ 9) :
    ((List.range n).foldl
        (fun s r => rijndaelRound s ((rijndaelKeySchedule key).get (Fin.ofNat 11 (r + 1))))
        (keyAdd (load input) (rijndaelKeySchedule key)[0])).toMatrix
      = Aes.rounds (load key).toMatrix (load input).toMatrix n := by
  induction n with
  | zero =>
    rw [List.range_zero, List.foldl_nil, toMatrix_keyAdd]
    have hkey : (rijndaelKeySchedule key)[0] = (roundKeyAt key 0).1 := get_rijndaelKeySchedule key 0
    rw [hkey, toMatrix_roundKeyAt]
    rfl
  | succ n ih =>
    have hkey : (rijndaelKeySchedule key).get (Fin.ofNat 11 (n + 1))
        = (roundKeyAt key (n + 1)).1 := by
      rw [get_rijndaelKeySchedule, Fin.val_ofNat, Nat.mod_eq_of_lt (by omega)]
    rw [List.range_succ, List.foldl_append, List.foldl_cons, List.foldl_nil, rijndaelRound,
      toMatrix_keyAdd, toMatrix_mixColumn, toMatrix_shiftRow, toMatrix_byteSub, ih (by omega), hkey,
      toMatrix_roundKeyAt]
    rfl

/-- The state that a block is loaded to. -/
theorem toMatrix_load (b : Octets 16) : (load b).toMatrix = Aes.load (ofOctets b) := by
  ext i j
  rw [toMatrix_apply, load, cell_of]
  have hoctet : toOctets (ofOctets b) (Fin.ofNat 16 (4 * j + i))
      = b (Fin.ofNat 16 (4 * j + i)) := by
    rw [toOctets_ofOctets]
  have hplace : (4 * j.val + i.val) % 16 = 4 * j + i := Nat.mod_eq_of_lt (by omega)
  rw [← hoctet, toOctets, UInt8.toBitVec_ofBitVec, Fin.val_ofNat, hplace]
  rfl

/-- The octets are taken out column by column. -/
theorem ofOctets_store (s : StateStruct) : ofOctets (store s) = Aes.store s.toMatrix := by
  have hcells : (fun n : Fin 16 =>
      UInt8.ofBitVec (Aes.word (s.toMatrix (Fin.ofNat 4 n) (Fin.ofNat 4 (n / 4)))))
      = store s := by
    funext n
    rw [toMatrix_apply, Aes.word_elem]
    rfl
  rw [Aes.store, hcells]
  rfl

/-- **The block cipher of Milenage is AES.** What `rijndael_encrypt` returns with the round keys of
`rijndael_key_schedule` is the encryption of the block under the key. -/
theorem ofOctets_rijndaelEncrypt (key input : Octets 16) :
    ofOctets (rijndaelEncrypt input (rijndaelKeySchedule key))
      = Aes.cipher (ofOctets key) (ofOctets input) := by
  have hkey : (rijndaelKeySchedule key)[10] = (roundKeyAt key 10).1 :=
    get_rijndaelKeySchedule key 10
  rw [rijndaelEncrypt, ofOctets_store, toMatrix_keyAdd, toMatrix_shiftRow, toMatrix_byteSub,
    toMatrix_rounds key input 9 (Nat.le_refl 9), hkey, toMatrix_roundKeyAt, toMatrix_load,
    toMatrix_load]
  rfl

end SrsUE.Security
