import Mathlib.Data.List.GetD
import Mathlib.Data.List.TakeDrop
import Mathlib.Tactic.Common

/-!
# `SrsUE.Lib.BitBlocks`: messages of bits in blocks

A cipher or a checksum takes a message in blocks of `w` bits, the first bit of the message as the
most significant one of the first block. `block` is the block at the front of a message, with zeros
behind its end, and `bits` are the bits of a string of octets.
-/

set_option autoImplicit false

namespace SrsUE.Lib

/-- The first `w` bits of a message, with zeros behind its end. -/
def block : (w : Nat) → List Bool → BitVec w
  | 0, _ => 0#0
  | w + 1, l => BitVec.cons (l.headD false) (block w l.tail)

/-- The bits of a block are those of the list. -/
theorem getMsbD_block {w k : Nat} (l : List Bool) (h : k < w) :
    (block w l).getMsbD k = l.getD k false := by
  induction w generalizing k l with
  | zero => exact absurd h (Nat.not_lt_zero k)
  | succ w ih =>
    cases k with
    | zero =>
      rw [block, BitVec.getMsbD_cons_zero]
      cases l <;> rfl
    | succ k =>
      rw [block, BitVec.getMsbD_cons_succ, ih l.tail (Nat.lt_of_succ_lt_succ h)]
      cases l <;> rfl

/-- A block is known by its bits. -/
theorem eq_block {w : Nat} {v : BitVec w} {l : List Bool}
    (h : ∀ k < w, v.getMsbD k = l.getD k false) :
    v = block w l :=
  BitVec.eq_of_getMsbD_eq fun k hk => by rw [h k hk, getMsbD_block l hk]

/-- The front of a list has its elements. -/
theorem getD_take_of_lt {α : Type} (l : List α) (d : α) {n k : Nat} (h : k < n) :
    (l.take n).getD k d = l.getD k d := by
  rw [List.getD_eq_getElem?_getD, List.getD_eq_getElem?_getD, List.getElem?_take_of_lt h]

/-- Behind the front there is the default. -/
theorem getD_take_of_le {α : Type} (l : List α) (d : α) {n k : Nat} (h : n ≤ k) :
    (l.take n).getD k d = d := by
  rw [List.getD_eq_getElem?_getD, List.getElem?_eq_none (Nat.le_trans (List.length_take_le n l) h),
    Option.getD_none]

/-- The rest of a list has the later elements. -/
theorem getD_drop {α : Type} (l : List α) (d : α) (n k : Nat) : (l.drop n).getD k d = l.getD
    (n + k) d := by
  rw [List.getD_eq_getElem?_getD, List.getD_eq_getElem?_getD, List.getElem?_drop]

/-! ### Octets -/

/-- The bits of an octet, the most significant one first. -/
def byteBits (b : UInt8) : List Bool := (List.range 8).map b.toBitVec.getMsbD

def bits (data : List UInt8) : List Bool := data.flatMap byteBits

/-- A byte has eight bits. -/
theorem length_byteBits (b : UInt8) : (byteBits b).length = 8 := by
  rw [byteBits, List.length_map, List.length_range]

/-- So has each byte of the data. -/
theorem length_bits (data : List UInt8) : (bits data).length = 8 * data.length := by
  induction data with
  | nil => rfl
  | cons b data ih =>
    have hrest : (data.flatMap byteBits).length = 8 * data.length := ih
    rw [bits, List.flatMap_cons, List.length_append, length_byteBits, hrest, List.length_cons]
    omega

/-- The bits of two parts, one after the other. -/
theorem bits_append (x y : List UInt8) : bits (x ++ y) = bits x ++ bits y := List.flatMap_append

/-- The bits of a byte, from the top. -/
theorem getD_byteBits (b : UInt8) {k : Nat} (h : k < 8) :
    (byteBits b).getD k false = b.toBitVec.getMsbD k := by
  rw [byteBits, List.getD_eq_getElem?_getD, List.getElem?_map, List.getElem?_range h]
  rfl

/-- The bit `k` of a string of octets is in the octet `k / 8`. -/
theorem getD_bits (data : List UInt8) (k : Nat) :
    (bits data).getD k false = (data.getD (k / 8) 0).toBitVec.getMsbD (k % 8) := by
  induction data generalizing k with
  | nil => simp [bits]
  | cons b data ih =>
    have hrest : bits (b :: data) = byteBits b ++ bits data := rfl
    rw [hrest]
    by_cases hk : k < 8
    · rw [List.getD_append _ _ _ _ (by rw [length_byteBits]; exact hk), getD_byteBits b hk,
        Nat.div_eq_of_lt hk, Nat.mod_eq_of_lt hk]
      rfl
    · have hdiv : k / 8 = (k - 8) / 8 + 1 := by omega
      have hmod : k % 8 = (k - 8) % 8 := by omega
      rw [List.getD_append_right _ _ _ _ (by rw [length_byteBits]; omega), length_byteBits,
        ih (k - 8), hdiv, hmod]
      rfl

end SrsUE.Lib
