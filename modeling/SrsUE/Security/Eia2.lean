import SrsUE.Rlc.Common
import SrsUE.Upper.Usim

/-!
# `SrsUE.Security.Eia2`: the integrity algorithm EIA2

The two functions `liblte_security_128_eia2` of `liblte_security.cc`, for a message of octets and
for one of bits. AES is in another library and is here any function `aes` from a key and a block to
a block.

Both functions are the same but for how they fill `M` and count its blocks and the bits of the last
one. What they share is `eia2`.
-/

set_option autoImplicit false

namespace SrsUE.Security

open SrsUE.Rlc (Bytes)
open SrsUE.Upper (Octets)

local instance neZero_block : NeZero 16 := ⟨by decide⟩

/-- The shift by one bit that makes a subkey. -/
def doubled (l : Octets 16) : Octets 16 := fun i =>
  if h : i.val < 15 then l i <<< 1 ||| (l ⟨i.val + 1, by omega⟩ >>> 7 &&& 0x01)
  else if l 0 &&& 0x80 ≠ 0 then l i <<< 1 ^^^ 0x87 else l i <<< 1

/-- The block `i` of `M`. -/
def blockAt (m : Bytes) (i : Nat) : Octets 16 := fun j => m.getD (16 * i + j.val) 0

/-- What both functions do once they have `M`, the number `n` of its blocks and `pad_bits`. -/
def eia2 (aes : Octets 16 → Octets 16) (m : Bytes) (n padBits : Nat) : Octets 4 :=
  let l := aes fun _ => 0
  let k1 := doubled l
  let k2 := doubled k1
  let t : Octets 16 :=
    (List.range (n - 1)).foldl (fun t i => aes fun j => t j ^^^ blockAt m i j) fun _ => 0
  let t :=
    if padBits = 0 then aes fun j => t j ^^^ k1 j ^^^ blockAt m (n - 1) j
    else
      let padBits := 128 - padBits - 1
      let m := m.modify (16 * (n - 1) + (15 - padBits / 8)) (· ||| 1 <<< UInt8.ofNat (padBits % 8))
      aes fun j => t j ^^^ k2 j ^^^ blockAt m (n - 1) j
  fun i => t (i.castLE (by decide))

/-- `(float)n`: a number of more than 24 bits goes to the nearest one that has only 24, or to the
even one of two. -/
def toFloat (n : Nat) : Nat :=
  let unit := 2 ^ (n.log2 - 23)
  let low := n / unit
  let up := if 2 * (n % unit) > unit ∨ 2 * (n % unit) = unit ∧ low % 2 = 1 then low + 1 else low
  up * unit

/-- The first eight octets of `M`. -/
def eia2Header (count : BitVec 32) (bearer direction : UInt8) : Bytes :=
  [.ofBitVec ((count >>> 24).setWidth 8), .ofBitVec ((count >>> 16).setWidth 8),
    .ofBitVec ((count >>> 8).setWidth 8),
    .ofBitVec (count.setWidth 8), bearer <<< 3 ||| direction <<< 2, 0, 0, 0]

/-- `liblte_security_128_eia2` of a message of octets. -/
def liblteSecurity128Eia2 (aes : Octets 16 → Octets 16 → Octets 16) (key : Octets 16)
    (count : BitVec 32)
    (bearer direction : UInt8) (msg : Bytes) : Octets 4 :=
  let m := eia2Header count bearer direction ++ msg ++ List.replicate 16 0
  eia2 (aes key) m ((toFloat (msg.length + 8) + 15) / 16) ((8 * msg.length + 64) % 128)

/-- The octets that the bits of a message go to, the last one filled with zeros. -/
def packBits (msg : List Bool) : Bytes :=
  (List.range ((msg.length + 7) / 8)).map fun i =>
    (List.range 8).foldl (fun b j => if msg.getD (8 * i + j) false then b |||
      1 <<< UInt8.ofNat (7 - j) else b) 0

/-- `liblte_security_128_eia2` of a message of bits. -/
def liblteSecurity128Eia2Bits (aes : Octets 16 → Octets 16 → Octets 16) (key : Octets 16)
    (count : BitVec 32)
    (bearer direction : UInt8) (msg : List Bool) : Octets 4 :=
  let m := eia2Header count bearer direction ++ packBits msg
    ++ List.replicate (msg.length * 8 + 16 - (msg.length + 7) / 8) 0
  eia2 (aes key) m ((toFloat (msg.length + 64) + 127) / 128) ((msg.length + 64) % 128)

end SrsUE.Security
