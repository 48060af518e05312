import SrsUE.Lib.BitCodec
import SrsUE.Lib.Cmac
import SrsUE.Proofs.Security.OctetBlocks
import SrsUE.Security.Eia2
import SrsUE.Security.Rijndael

/-!
# `SrsUE.Proofs.Security.Eia2Cmac`: EIA2 is CMAC

Both functions compute the first four octets of the CMAC of the count, the bearer, the direction, 26
zeros and the message, for any cipher in the place of AES. The octets of the source are one word of
128 bits here.

The number of blocks is computed with a `float`, which is exact up to 2 ^ 24.
-/

set_option autoImplicit false

namespace SrsUE.Security

open SrsUE.Lib SrsUE.Rlc SrsUE.Upper

/-! ### Words -/

/-- The bits of the octets from one place on, as a block. -/
theorem ofOctets_blockAt (m : Bytes) (i : Nat) : ofOctets (blockAt m i) = block 128
    ((bits m).drop (128 * i)) := by
  refine eq_block fun k hk => ?_
  have hdiv : (128 * i + k) / 8 = 16 * i + k / 8 := by omega
  have hmod : (128 * i + k) % 8 = k % 8 := by omega
  rw [getMsbD_ofOctets _ hk, getD_drop, getD_bits, hdiv, hmod]
  rfl

/-! ### The subkeys -/

/-- The top bit of a byte, moved to its end. -/
theorem getMsbD_shifted :
    ∀ b : BitVec 8, ∀ k < 8, (b >>> 7 &&& 1).getMsbD k = (decide (k = 7) && b.getMsbD 0) := by
  decide

/-- The constant of the reduction has its bits in the last byte. -/
theorem getMsbD_reduction {k : Nat} (hk : k < 128) :
    (0x87#128).getMsbD k = (decide (120 ≤ k) && (0x87#8).getMsbD (k - 120)) := by
  revert k
  decide

/-- Multiplication by `X`, bit by bit from the top. -/
theorem getMsbD_mulX {w : Nat} (c v : BitVec w) (k : Nat) :
    (Binary.mulX c v).getMsbD k = (v.getMsbD (k + 1) ^^ (v.msb && c.getMsbD k)) := by
  rw [Binary.mulX]
  cases v.msb <;> simp

/-- A byte shifted by one, with the top bit of the next byte. -/
theorem getMsbD_carry (a b : UInt8) {k : Nat} (hk : k < 8) :
    (a <<< 1 ||| (b >>> 7 &&& 0x01)).toBitVec.getMsbD k
      = (a.toBitVec.getMsbD (k + 1) || (decide (k = 7) && b.toBitVec.getMsbD 0)) := by
  have h : (a <<< 1 ||| (b >>> 7 &&& 0x01)).toBitVec = a.toBitVec <<< 1 |||
      (b.toBitVec >>> 7 &&& 1) :=
    rfl
  rw [h, BitVec.getMsbD_or, BitVec.getMsbD_shiftLeft, getMsbD_shifted _ k hk]

/-- A shift of the octets with their carries is a shift of the word. -/
theorem ofOctets_doubled (l : Octets 16) : ofOctets (doubled l) = Binary.mulX 0x87#128
    (ofOctets l) := by
  have hmsb : (ofOctets l).msb = (l 0).toBitVec.getMsbD 0 := getMsbD_ofOctets l (by decide)
  have hcarry : l 0 &&& 0x80 ≠ 0 ↔ (l 0).toBitVec.getMsbD 0 = true := by
    rw [← UInt8.toBitVec_inj.ne]
    exact (by decide : ∀ b : BitVec 8, b &&& 0x80 ≠ 0 ↔ b.getMsbD 0 = true) (l 0).toBitVec
  refine BitVec.eq_of_getMsbD_eq fun k hk => ?_
  rw [getMsbD_ofOctets _ hk, getMsbD_mulX, hmsb, getMsbD_reduction hk, doubled]
  -- Only the last octet takes the reduction, the others shift in the top bit of the next one.
  by_cases hlast : k / 8 < 15
  · rw [dif_pos hlast, getMsbD_carry _ _ (Nat.mod_lt k (by decide)),
      getMsbD_ofOctets l (by omega : k + 1 < 128), decide_eq_false (by omega : ¬120 ≤ k),
      Bool.false_and, Bool.and_false, Bool.xor_false]
    by_cases hbit : k % 8 = 7
    · have hdiv : (k + 1) / 8 = k / 8 + 1 := by omega
      have hmod : (k + 1) % 8 = 0 := by omega
      have hout : (l ⟨k / 8, by omega⟩).toBitVec.getMsbD (7 + 1) = false :=
        BitVec.getMsbD_of_ge _ _ (Nat.le_refl 8)
      simp only [hdiv, hmod, hbit, hout, decide_true, Bool.true_and, Bool.false_or]
    · have hdiv : (k + 1) / 8 = k / 8 := by omega
      have hmod : (k + 1) % 8 = k % 8 + 1 := by omega
      simp only [hdiv, hmod, decide_eq_false hbit, Bool.false_and, Bool.or_false]
  · have hindex : k / 8 = 15 := by omega
    have hmod : k % 8 = k - 120 := by omega
    have hnext : (ofOctets l).getMsbD (k + 1) = (l 15).toBitVec.getMsbD (k - 120 + 1) := by
      by_cases hend : k + 1 < 128
      · have hdiv : (k + 1) / 8 = 15 := by omega
        have hmod' : (k + 1) % 8 = k - 120 + 1 := by omega
        rw [getMsbD_ofOctets l hend]
        simp only [hdiv, hmod']
        rfl
      · rw [BitVec.getMsbD_of_ge _ _ (by omega), BitVec.getMsbD_of_ge _ _ (by omega)]
    have hshift : ∀ a : UInt8, (a <<< 1).toBitVec = a.toBitVec <<< 1 := fun _ => rfl
    rw [dif_neg hlast, hnext, decide_eq_true (by omega : 120 ≤ k), Bool.true_and, hmod]
    simp only [hindex]
    -- Multiplying by x reduces when the bit shifted out is set.
    by_cases hset : (l 0).toBitVec.getMsbD 0 = true
    · rw [if_pos (hcarry.mpr hset), hset, UInt8.toBitVec_xor, BitVec.getMsbD_xor, hshift,
        BitVec.getMsbD_shiftLeft, Bool.true_and]
      rfl
    · rw [if_neg (fun h => hset (hcarry.mp h)), Bool.eq_false_iff.mpr hset, hshift,
        BitVec.getMsbD_shiftLeft, Bool.false_and, Bool.xor_false]
      rfl

/-! ### The blocks -/

variable (aes : Octets 16 → Octets 16)

/-- The cipher on words. -/
def cipher (v : BitVec 128) : BitVec 128 := ofOctets (aes (toOctets v))

/-- The cipher on octets and on words. -/
theorem ofOctets_aes (b : Octets 16) : ofOctets (aes b) = cipher aes (ofOctets b) := by
  rw [cipher, toOctets_ofOctets]

/-- Zeros behind a message do not change its blocks. -/
theorem block_append_zeros (w : Nat) (l : List Bool) (n k : Nat) :
    block w ((l ++ List.replicate n false).drop k) = block w (l.drop k) := by
  refine eq_block fun i hi => ?_
  rw [getMsbD_block _ hi, getD_drop, getD_drop]
  by_cases h : k + i < l.length
  · rw [List.getD_append _ _ _ _ h]
  · rw [List.getD_append_right _ _ _ _ (by omega), List.getD_eq_default l _ (by omega)]
    by_cases hn : k + i - l.length < n
    · exact List.getD_replicate false hn
    · exact List.getD_eq_default _ _ (by rw [List.length_replicate]; omega)

/-- A cipher on the octets of the first `n` blocks of `M` is the chain over its bits. -/
theorem ofOctets_chain (m : Bytes) (n : Nat) :
    ofOctets ((List.range n).foldl (fun t i => aes fun j => t j ^^^ blockAt m i j) fun _ => 0)
      = Cmac.chain (cipher aes) (bits m) n := by
  induction n with
  | zero =>
    refine BitVec.eq_of_getMsbD_eq fun k hk => ?_
    rw [Cmac.chain, List.range_zero, List.foldl_nil, List.foldl_nil, getMsbD_ofOctets _ hk]
    simp
  | succ n ih =>
    rw [Cmac.chain, List.range_succ, List.foldl_append, List.foldl_append, List.foldl_cons,
      List.foldl_nil, List.foldl_cons, List.foldl_nil, ofOctets_aes, ofOctets_xor, ih,
      ofOctets_blockAt]
    rfl

/-- Zeros behind the message do not change its last block. -/
theorem chain_append_zeros (e : BitVec 128 → BitVec 128) (msg : List Bool) (z n : Nat) :
    Cmac.chain e (msg ++ List.replicate z false) n = Cmac.chain e msg n := by
  simp only [Cmac.chain, block_append_zeros]

/-! ### The last block -/

/-- One bit set in a byte. -/
theorem getMsbD_or_bit {s : Nat} (hs : s < 8) (b : UInt8) {k : Nat} (hk : k < 8) :
    (b ||| 1 <<< UInt8.ofNat (7 - s)).toBitVec.getMsbD k
      = (b.toBitVec.getMsbD k || decide (k = s)) := by
  have hbit : ∀ s < 8, ∀ k < 8, (1 <<< UInt8.ofNat (7 - s) : UInt8).toBitVec.getMsbD k
      = decide (k = s) := by
    decide
  rw [UInt8.toBitVec_or, BitVec.getMsbD_or, hbit s hs k hk]

/-- A change of one byte of a message. -/
theorem getD_modify (m : Bytes) (f : UInt8 → UInt8) {p k : Nat} (hp : p < m.length) :
    (m.modify p f).getD k 0 = if k = p then f (m.getD k 0) else m.getD k 0 := by
  rw [List.getD_eq_getElem?_getD, List.getD_eq_getElem?_getD, List.getElem?_modify]
  by_cases h : k = p
  · rw [if_pos h, h, List.getElem?_eq_getElem hp]
    simp
  · have hne : ¬p = k := fun hpk => h hpk.symm
    simp [h, hne]

/-- The bit that is set behind a message of `r` bits in the last block. -/
theorem ofOctets_padded {m : Bytes} {msg : List Bool} {z n r : Nat}
    (hm : bits m = msg ++ List.replicate z false)
    (hlen : msg.length = 128 * n + r) (hroom : 16 * n + r / 8 < m.length) :
    ofOctets (blockAt (m.modify (16 * n + r / 8) (· ||| 1 <<< UInt8.ofNat (7 - r % 8))) n)
      = block 128 (msg.drop (128 * n) ++ [true]) := by
  refine eq_block fun k hk => ?_
  have hrest : (msg.drop (128 * n)).length = r := by
    rw [List.length_drop, hlen, Nat.add_sub_cancel_left]
  -- The message's own bit, or zero behind its end.
  have hbit : (m.getD (16 * n + k / 8) 0).toBitVec.getMsbD (k % 8)
      = (decide (k < r) && (msg.drop (128 * n)).getD k false) := by
    have hdiv : (128 * n + k) / 8 = 16 * n + k / 8 := by omega
    have hmod : (128 * n + k) % 8 = k % 8 := by omega
    have hat := getD_bits m (128 * n + k)
    rw [hdiv, hmod, hm] at hat
    rw [← hat, getD_drop]
    by_cases h : k < r
    · rw [List.getD_append _ _ _ _ (by omega), decide_eq_true h, Bool.true_and]
    · rw [List.getD_append_right _ _ _ _ (by omega), decide_eq_false h, Bool.false_and]
      by_cases hz : 128 * n + k - msg.length < z
      · exact List.getD_replicate false hz
      · exact List.getD_eq_default _ _ (by rw [List.length_replicate]; omega)
  -- The padding rule: the rest of the message, then one set bit.
  have hspec : (msg.drop (128 * n) ++ [true]).getD k false
      = ((decide (k < r) && (msg.drop (128 * n)).getD k false) || decide (k = r)) := by
    rcases Nat.lt_trichotomy k r with h | h | h
    · rw [List.getD_append _ _ _ _ (by omega), decide_eq_true h, decide_eq_false (by omega),
        Bool.true_and, Bool.or_false]
    · rw [List.getD_append_right _ _ _ _ (by omega), hrest, h, Nat.sub_self,
        decide_eq_false (Nat.lt_irrefl r), decide_eq_true rfl, Bool.or_true]
      rfl
    · rw [List.getD_append_right _ _ _ _ (by omega), decide_eq_false (by omega),
        decide_eq_false (by omega), Bool.false_and, Bool.or_false]
      exact List.getD_eq_default _ _ (by rw [List.length_singleton]; omega)
  have hoctet := getD_modify m (· ||| 1 <<< UInt8.ofNat (7 - r % 8)) (k := 16 * n + k / 8) hroom
  rw [getMsbD_ofOctets _ hk, hspec, blockAt, hoctet]
  -- Only one octet is changed, the one that holds the set bit.
  by_cases hplace : k / 8 = r / 8
  · have heq : decide (k % 8 = r % 8) = decide (k = r) := decide_eq_decide.mpr (by omega)
    rw [if_pos (congrArg (16 * n + ·) hplace), getMsbD_or_bit (Nat.mod_lt r (by decide)) _
      (Nat.mod_lt k (by decide)), hbit, heq]
  · have hne : k ≠ r := fun h => hplace (by rw [h])
    have hother : 16 * n + k / 8 ≠ 16 * n + r / 8 := by omega
    rw [if_neg hother, hbit, decide_eq_false hne, Bool.or_false]

/-! ### The authentication code -/

/-- The octets of the code that are sent. -/
def macOf (t : BitVec 128) : Octets 4 := fun i => toOctets t (i.castAdd 12)

/-- Both functions, from the bits of `M` on. -/
theorem eia2_eq {m : Bytes} {msg : List Bool} {z n : Nat}
    (hm : bits m = msg ++ List.replicate z false)
    (hz : 128 ≤ z) (hpos : 0 < msg.length) (hn : n = (msg.length + 127) / 128) :
    eia2 aes m n (msg.length % 128) = macOf (Cmac.tag 0x87#128 (cipher aes) msg) := by
  have hlast : n - 1 = Cmac.lastIndex 128 msg := by
    rw [hn, Cmac.lastIndex]
    omega
  have hzero : ofOctets (fun _ => 0) = 0 := by
    refine BitVec.eq_of_getMsbD_eq fun k hk => ?_
    rw [getMsbD_ofOctets _ hk]
    simp
  -- The two subkeys are the doubled and the twice doubled cipher of the zero block.
  have hk1 : ofOctets (doubled (aes fun _ => 0)) = Cmac.subkey1 0x87#128 (cipher aes) := by
    rw [ofOctets_doubled, ofOctets_aes, hzero]
    rfl
  have hk2 : ofOctets (doubled (doubled (aes fun _ => 0)))
      = Cmac.subkey2 0x87#128 (cipher aes) := by
    rw [ofOctets_doubled, hk1]
    rfl
  have hchain := ofOctets_chain aes m (n - 1)
  rw [hm, chain_append_zeros, hlast] at hchain
  have hlength : (bits m).length = 8 * m.length := length_bits m
  rw [hm, List.length_append, List.length_replicate] at hlength
  have hindex : Cmac.lastIndex 128 msg = (msg.length - 1) / 128 := rfl
  rw [eia2, Cmac.tag]
  simp only [hlast]
  funext i
  refine congrFun (?_ : _ = toOctets _) _
  rw [← toOctets_ofOctets (ite _ _ _)]
  refine congrArg toOctets ?_
  -- A whole last block is masked with the first subkey, a padded one with the second.
  by_cases hfull : msg.length % 128 = 0
  · have hrest : (msg.drop (128 * Cmac.lastIndex 128 msg)).length = 128 := by
      rw [List.length_drop]
      omega
    rw [if_pos hfull, Cmac.lastBlock, if_pos hrest, ofOctets_aes, ofOctets_xor, ofOctets_xor,
      hchain, hk1, ofOctets_blockAt, hm, block_append_zeros, BitVec.xor_assoc,
      BitVec.xor_comm (Cmac.subkey1 _ _)]
  · have hsplit : msg.length = 128 * Cmac.lastIndex 128 msg + msg.length % 128 := by omega
    have hrest : (msg.drop (128 * Cmac.lastIndex 128 msg)).length ≠ 128 := by
      rw [List.length_drop]
      omega
    have hplace : 16 * Cmac.lastIndex 128 msg + (15 - (128 - msg.length % 128 - 1) / 8)
        = 16 * Cmac.lastIndex 128 msg + msg.length % 128 / 8 := by omega
    have hbit : (128 - msg.length % 128 - 1) % 8 = 7 - msg.length % 128 % 8 := by omega
    rw [if_neg hfull, Cmac.lastBlock, if_neg hrest, hplace, hbit, ofOctets_aes, ofOctets_xor,
      ofOctets_xor, hchain, hk2, ofOctets_padded hm hsplit (by omega), BitVec.xor_assoc,
      BitVec.xor_comm (Cmac.subkey2 _ _)]

/-! ### What the code is computed of -/

/-- The low bits of a number decide how it is written. -/
theorem putNat_congr {n u v : Nat} (h : ∀ i < n, u.testBit i = v.testBit i) :
    putNat n u = putNat n v := by
  induction n with
  | zero => rfl
  | succ n ih =>
    rw [putNat, putNat, h n (Nat.lt_succ_self n), ih fun i hi => h i (Nat.lt_succ_of_lt hi)]

/-- The bits of a byte are those of its number. -/
theorem byteBits_eq (b : UInt8) : byteBits b = putNat 8 b.toNat := by
  have h : ∀ v : BitVec 8, (List.range 8).map v.getMsbD = putNat 8 v.toNat := by decide
  exact h b.toBitVec

/-- The bits of an octet cut out of a word. -/
theorem byteBits_setWidth (v : BitVec 32) (k : Nat) :
    byteBits (UInt8.ofBitVec ((v >>> k).setWidth 8)) = putNat 8 (v.toNat >>> k) := by
  rw [byteBits_eq]
  refine putNat_congr fun i hi => ?_
  have hbit : (UInt8.ofBitVec ((v >>> k).setWidth 8)).toNat = (v.toNat >>> k) % 2 ^ 8 := rfl
  rw [hbit, Nat.testBit_mod_two_pow, decide_eq_true hi, Bool.true_and]

/-- The header of the message as it is meant: the bearer has five bits and the direction has one. -/
def eia2Prefix (count : BitVec 32) (bearer : BitVec 5) (direction : BitVec 1) : List Bool :=
  putBits count ++ putBits bearer ++ putBits direction ++ List.replicate 26 false

/-- The bits of the eight bytes in front of the message. -/
theorem bits_eia2Header (count : BitVec 32) (bearer : BitVec 5) (direction : BitVec 1) :
    bits (eia2Header count (UInt8.ofBitVec (bearer.setWidth 8))
      (UInt8.ofBitVec (direction.setWidth 8)))
      = eia2Prefix count bearer direction := by
  have hcount : byteBits (UInt8.ofBitVec ((count >>> 24).setWidth 8))
      ++ (byteBits (UInt8.ofBitVec ((count >>> 16).setWidth 8))
        ++ (byteBits (UInt8.ofBitVec ((count >>> 8).setWidth 8)) ++
        byteBits (UInt8.ofBitVec (count.setWidth 8))))
      = putBits count := by
    have hlow := byteBits_setWidth count 0
    rw [BitVec.ushiftRight_zero, Nat.shiftRight_zero] at hlow
    rw [byteBits_setWidth, byteBits_setWidth, byteBits_setWidth, hlow, putBits, ← putNat_add,
      ← putNat_add, ← putNat_add]
  have hbearer : ∀ b : BitVec 5, ∀ d : BitVec 1,
      byteBits (UInt8.ofBitVec (b.setWidth 8) <<< 3 ||| UInt8.ofBitVec (d.setWidth 8) <<< 2)
        = putBits b ++ putBits d ++ [false, false] := by decide
  have hzeros : byteBits 0 ++ byteBits 0 ++ byteBits 0 = List.replicate 24 false := by decide
  rw [eia2Header, bits, eia2Prefix, ← hcount]
  simp only [List.flatMap_cons, List.flatMap_nil, hbearer, List.append_nil, List.append_assoc,
    List.cons_append, List.nil_append]
  rw [← List.append_assoc (byteBits 0), hzeros]
  rfl

/-- Numbers up to `2 ^ 24` are exact as a `float`. -/
theorem toFloat_of_le {n : Nat} (h : n ≤ 2 ^ 24) : toFloat n = n := by
  rcases Nat.lt_or_eq_of_le h with hlt | rfl
  · have hlog : n.log2 - 23 = 0 := by
      rcases Nat.eq_zero_or_pos n with rfl | hpos
      · rfl
      · have := (Nat.log2_lt (Nat.ne_of_gt hpos)).mpr hlt
        omega
    rw [toFloat, hlog]
    simp [Nat.mod_one]
  · decide

/-- The header has 64 bits. -/
theorem length_eia2Prefix (count : BitVec 32) (bearer : BitVec 5) (direction : BitVec 1) :
    (eia2Prefix count bearer direction).length = 64 := by
  simp [eia2Prefix]

/-- The function for octets, for messages whose length is exact as a `float`. -/
theorem liblteSecurity128Eia2_eq (aes : Octets 16 → Octets 16 → Octets 16) (key : Octets 16)
    (count : BitVec 32)
    (bearer : BitVec 5) (direction : BitVec 1) {msg : Bytes} (h : msg.length + 8 ≤ 2 ^ 24) :
    liblteSecurity128Eia2 aes key count (UInt8.ofBitVec (bearer.setWidth 8))
      (UInt8.ofBitVec (direction.setWidth 8)) msg
      = macOf (Cmac.tag 0x87#128 (cipher (aes key)) (eia2Prefix count bearer direction ++
        bits msg)) := by
  have hprefix := length_eia2Prefix count bearer direction
  have hlength : (eia2Prefix count bearer direction ++ bits msg).length = 8 * msg.length + 64 := by
    rw [List.length_append, hprefix, length_bits, Nat.add_comm]
  have hbits : bits (eia2Header count (UInt8.ofBitVec (bearer.setWidth 8))
      (UInt8.ofBitVec (direction.setWidth 8))
      ++ msg ++ List.replicate 16 0) = eia2Prefix count bearer direction ++ bits msg ++
      List.replicate 128 false := by
    rw [bits_append, bits_append, bits_eia2Header]
    rfl
  rw [liblteSecurity128Eia2, toFloat_of_le h, ← hlength]
  refine eia2_eq (aes key) hbits (Nat.le_refl 128) ?_ ?_
  · omega
  · omega

/-- Eight octets under AES. -/
theorem liblteSecurity128Eia2_eq_octets :
    let aes := fun key block => rijndaelEncrypt block (rijndaelKeySchedule key)
    let key : Octets 16 := fun i => 0xd3 - 7 * UInt8.ofNat i
    let msg : Bytes := [0x48, 0x45, 0x83, 0xd5, 0xaf, 0xe0, 0x82, 0xae]
    liblteSecurity128Eia2 aes key 0x398a59b4 (UInt8.ofBitVec ((0x1a : BitVec 5).setWidth 8))
        (UInt8.ofBitVec ((1 : BitVec 1).setWidth 8)) msg
      = macOf (Cmac.tag 0x87#128 (cipher (aes key)) (eia2Prefix 0x398a59b4 0x1a 1 ++ bits msg)) :=
  liblteSecurity128Eia2_eq _ _ 0x398a59b4 0x1a 1 (by decide)

/-! ### Messages of bits -/

/-- The loop over the bits of a byte sets those of the message. -/
theorem getMsbD_packed (msg : List Bool) (i : Nat) {n k : Nat} (hn : n ≤ 8) (hk : k < 8) :
    ((List.range n).foldl (fun b j => if msg.getD (8 * i + j) false then b |||
    1 <<< UInt8.ofNat (7 - j) else b)
        (0 : UInt8)).toBitVec.getMsbD k
      = (decide (k < n) && msg.getD (8 * i + k) false) := by
  induction n with
  | zero => simp
  | succ n ih =>
    have hprev := ih (Nat.le_of_succ_le hn)
    rw [List.range_succ, List.foldl_append, List.foldl_cons, List.foldl_nil]
    by_cases hset : msg.getD (8 * i + n) false = true
    · rw [if_pos hset, getMsbD_or_bit hn _ hk, hprev]
      by_cases hkn : k = n
      · rw [hkn, hset, decide_eq_true rfl, decide_eq_true (Nat.lt_succ_self n), Bool.or_true,
          Bool.true_and]
      · rw [decide_eq_false hkn, Bool.or_false, decide_eq_decide.mpr (by omega : k < n + 1 ↔ k < n)]
    · rw [if_neg hset, hprev]
      by_cases hkn : k = n
      · rw [hkn, Bool.eq_false_iff.mpr hset, Bool.and_false, Bool.and_false]
      · rw [decide_eq_decide.mpr (by omega : k < n + 1 ↔ k < n)]

/-- The message is padded to whole bytes. -/
theorem length_packBits (msg : List Bool) : (packBits msg).length = (msg.length + 7) / 8 := by
  rw [packBits, List.length_map, List.length_range]

/-- Its bits are those of the message, and zeros. -/
theorem bits_packBits (msg : List Bool) :
    bits (packBits msg) = msg ++ List.replicate (8 * ((msg.length + 7) / 8) - msg.length)
      false := by
  have hlength : (bits (packBits msg)).length = 8 * ((msg.length + 7) / 8) := by
    rw [length_bits, length_packBits]
  refine List.ext_getElem ?_ fun k hk hk' => ?_
  · rw [hlength, List.length_append, List.length_replicate]
    omega
  · rw [← List.getD_eq_getElem _ false hk, ← List.getD_eq_getElem _ false hk', getD_bits]
    have hin : k / 8 < (msg.length + 7) / 8 := by omega
    have hoctet : (packBits msg).getD (k / 8) 0
        = (List.range 8).foldl
            (fun b j => if msg.getD (8 * (k / 8) + j) false then b ||| 1 <<< UInt8.ofNat (7 - j)
              else b) 0 := by
      rw [packBits, List.getD_eq_getElem?_getD, List.getElem?_map, List.getElem?_range hin]
      rfl
    rw [hoctet, getMsbD_packed msg _ (Nat.le_refl 8) (Nat.mod_lt k (by decide)), Nat.div_add_mod,
      decide_eq_true (Nat.mod_lt k (by decide)), Bool.true_and]
    -- Behind the message the last octet is filled with zeros.
    by_cases h : k < msg.length
    · rw [List.getD_append _ _ _ _ h]
    · rw [List.getD_append_right _ _ _ _ (by omega), List.getD_eq_default msg _ (by omega)]
      by_cases hz : k - msg.length < 8 * ((msg.length + 7) / 8) - msg.length
      · exact (List.getD_replicate false hz).symm
      · exact (List.getD_eq_default _ _ (by rw [List.length_replicate]; omega)).symm

/-- The function for bits, for messages whose length is exact as a `float`. -/
theorem liblteSecurity128Eia2Bits_eq (aes : Octets 16 → Octets 16 → Octets 16) (key : Octets 16)
    (count : BitVec 32)
    (bearer : BitVec 5) (direction : BitVec 1) {msg : List Bool} (h : msg.length + 64 ≤ 2 ^ 24) :
    liblteSecurity128Eia2Bits aes key count (UInt8.ofBitVec (bearer.setWidth 8))
        (UInt8.ofBitVec (direction.setWidth 8)) msg
      = macOf (Cmac.tag 0x87#128 (cipher (aes key)) (eia2Prefix count bearer direction ++
        msg)) := by
  have hprefix := length_eia2Prefix count bearer direction
  have hlength : (eia2Prefix count bearer direction ++ msg).length = msg.length + 64 := by
    rw [List.length_append, hprefix, Nat.add_comm]
  have hzeros : bits (List.replicate (msg.length * 8 + 16 - (msg.length + 7) / 8) 0)
      = List.replicate (8 * (msg.length * 8 + 16 - (msg.length + 7) / 8)) false := by
    refine List.eq_replicate_iff.mpr ⟨by rw [length_bits, List.length_replicate], fun b hb => ?_⟩
    obtain ⟨o, ho, hb⟩ := List.mem_flatMap.mp hb
    rw [List.eq_of_mem_replicate ho] at hb
    exact (by decide : ∀ b ∈ byteBits 0, b = false) b hb
  -- The zeros of the last octet and those of the buffer are one run.
  have hbits : bits (eia2Header count (UInt8.ofBitVec (bearer.setWidth 8))
      (UInt8.ofBitVec (direction.setWidth 8))
      ++ packBits msg ++ List.replicate (msg.length * 8 + 16 - (msg.length + 7) / 8) 0)
      = eia2Prefix count bearer direction ++ msg
        ++ List.replicate (8 * ((msg.length + 7) / 8) - msg.length
          + 8 * (msg.length * 8 + 16 - (msg.length + 7) / 8)) false := by
    rw [bits_append, bits_append, bits_eia2Header, bits_packBits, hzeros, List.replicate_add]
    simp only [List.append_assoc]
  rw [liblteSecurity128Eia2Bits, toFloat_of_le h, ← hlength]
  refine eia2_eq (aes key) hbits (by omega) ?_ ?_
  · omega
  · omega

end SrsUE.Security
