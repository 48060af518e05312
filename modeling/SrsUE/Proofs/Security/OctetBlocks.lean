import SrsUE.Lib.BitBlocks
import SrsUE.Upper.Usim

/-!
# `SrsUE.Proofs.Security.OctetBlocks`: arrays of octets as words

The security functions take arrays of octets, and their specifications words. The first octet of an
array is the most significant one of the word.
-/

set_option autoImplicit false

namespace SrsUE.Security

open SrsUE.Lib
open SrsUE.Upper (Octets)

/-- An array of octets as a word. -/
def bigEndian {n : Nat} (b : Octets n) : BitVec (8 * n) := block (8 * n) (bits (List.ofFn b))

/-- The bits of a word are those of its octets, from the top. -/
theorem getMsbD_bigEndian {n : Nat} (b : Octets n) {k : Nat} (hk : k < 8 * n) :
    (bigEndian b).getMsbD k = (b ⟨k / 8, by omega⟩).toBitVec.getMsbD (k % 8) := by
  have hoctet : (List.ofFn b).getD (k / 8) 0 = b ⟨k / 8, by omega⟩ := by
    rw [List.getD_eq_getElem?_getD, List.getElem?_ofFn, dif_pos (by omega), Option.getD_some]
  rw [bigEndian, getMsbD_block _ hk, getD_bits, hoctet]

/-- The sum of octets is the sum of the words. -/
theorem bigEndian_xor {n : Nat} (a b : Octets n) :
    bigEndian (fun i => a i ^^^ b i) = bigEndian a ^^^ bigEndian b := by
  refine BitVec.eq_of_getMsbD_eq fun k hk => ?_
  rw [BitVec.getMsbD_xor, getMsbD_bigEndian _ hk, getMsbD_bigEndian _ hk, getMsbD_bigEndian _ hk,
    UInt8.toBitVec_xor, BitVec.getMsbD_xor]

/-! ### Sixteen octets as a word -/

/-- Sixteen octets as a word. -/
def ofOctets (b : Octets 16) : BitVec 128 := bigEndian b

def toOctets (v : BitVec 128) : Octets 16 :=
  fun i => UInt8.ofBitVec (v.extractLsb' (8 * (15 - i.val)) 8)

/-- The bits of a block are those of its octets. -/
theorem getMsbD_ofOctets (b : Octets 16) {k : Nat} (hk : k < 128) :
    (ofOctets b).getMsbD k = (b ⟨k / 8, by omega⟩).toBitVec.getMsbD (k % 8) :=
  getMsbD_bigEndian b hk

/-- The octets of a block give it back. -/
theorem toOctets_ofOctets (b : Octets 16) : toOctets (ofOctets b) = b := by
  funext i
  refine UInt8.toBitVec_inj.mp (BitVec.eq_of_getMsbD_eq fun k hk => ?_)
  have hi := i.isLt
  have hplace : (toOctets (ofOctets b) i).toBitVec.getMsbD k
      = (ofOctets b).getMsbD (8 * i.val + k) := by
    rw [toOctets, UInt8.toBitVec_ofBitVec, BitVec.getMsbD_extractLsb', decide_eq_true hk,
      decide_eq_true (by omega : 8 * (15 - i.val) + 8 - k ≤ 128), Bool.true_and, Bool.true_and]
    congr 1
    omega
  have hdiv : (8 * i.val + k) / 8 = i.val := by omega
  have hmod : (8 * i.val + k) % 8 = k := by omega
  rw [hplace, getMsbD_ofOctets b (by omega)]
  simp only [hdiv, hmod]

/-- Every word is that of some octets. -/
theorem ofOctets_toOctets (v : BitVec 128) : ofOctets (toOctets v) = v := by
  refine BitVec.eq_of_getMsbD_eq fun k hk => ?_
  rw [getMsbD_ofOctets _ hk, toOctets, UInt8.toBitVec_ofBitVec, BitVec.getMsbD_extractLsb',
    decide_eq_true (Nat.mod_lt k (by decide)), decide_eq_true (by omega), Bool.true_and,
    Bool.true_and]
  congr 1
  show 128 - (8 * (15 - k / 8) + 8 - k % 8) = k
  omega

/-- The sum of octets is the sum of the blocks. -/
theorem ofOctets_xor (a b : Octets 16) :
    ofOctets (fun j => a j ^^^ b j) = ofOctets a ^^^ ofOctets b :=
  bigEndian_xor a b

end SrsUE.Security
