import SrsUE.Lib.BitBlocks
import SrsUE.Proofs.Security.Snow3gRecurrence

/-!
# `SrsUE.Proofs.Security.F9Polynomial`: the checksum of EIA1 is a polynomial

`snow3gF9_spec`: over the remainders modulo `X ^ 64 + X ^ 4 + X ^ 3 + X + 1`, the blocks of the
message are the coefficients of a polynomial, and its value at one pair of words of the keystream,
plus the length, times another pair, gives the checksum. This is so for messages of any number of
bits but none: the bits behind the end of the message do not count.
-/

set_option autoImplicit false

namespace SrsUE.Security

open SrsUE.Lib SrsUE.Rlc SrsUE.Upper

/-! ### The product -/

/-- `MUL64x` is multiplication by `X`. -/
theorem mul64x_eq (v c : BitVec 64) : mul64x v c = Binary.mulX c v := by
  have hmsb : v &&& 0x8000000000000000 ≠ 0 ↔ v.msb = true := by
    rw [show (0x8000000000000000 : BitVec 64) = BitVec.twoPow 64 63 from rfl, BitVec.and_twoPow,
      BitVec.msb_eq_getLsbD_last]
    cases v.getLsbD 63 <;> decide
  rw [mul64x, Binary.mulX]
  exact if_congr hmsb rfl rfl

/-- `MUL64xPOW` is multiplication by a power of it. -/
theorem mul64xPow_eq (v c : BitVec 64) (i : Nat) : mul64xPow v i c = Binary.mulXPow c v i := by
  induction i with
  | zero => rfl
  | succ i ih => rw [mul64xPow, ih, mul64x_eq, Binary.mulXPow]

/-- `MUL64` is multiplication. -/
theorem mul64_eq (v p c : BitVec 64) : mul64 v p c = Binary.mul c v p := by
  have hbit : ∀ i, (p >>> i) &&& 0x1 ≠ 0 ↔ p.getLsbD i = true := fun i => by
    rw [show (0x1 : BitVec 64) = 1#64 from rfl, BitVec.and_one_eq_setWidth_ofBool_getLsbD,
      BitVec.getLsbD_ushiftRight, Nat.add_zero]
    cases p.getLsbD i <;> decide
  rw [mul64, Binary.mul]
  congr 1
  funext result i
  rw [mul64xPow_eq]
  exact if_congr (hbit i) rfl rfl

/-! ### The blocks -/

/-- The bit `k` of the octets from `pos` on. -/
def dataBit (data : Bytes) (k : Nat) : Bool := (data.getD (k / 8) 0).toBitVec.getMsbD (k % 8)

/-- The octet `n` of a block has its bits at the places from `8 * n` on. -/
theorem getMsbD_placed (b : BitVec 8) {n : Nat} (hn : n < 8) (k : Nat) :
    (b.setWidth 64 <<< (8 * (7 - n))).getMsbD k = (decide (8 * n ≤ k) &&
    b.getMsbD (k - 8 * n)) := by
  have hplace : 64 - 8 ≤ k + 8 * (7 - n) ↔ 8 * n ≤ k := by omega
  have hindex : k + 8 * (7 - n) + 8 - 64 = k - 8 * n := by omega
  rw [BitVec.getMsbD_shiftLeft, BitVec.getMsbD_setWidth, hindex, decide_eq_decide.mpr hplace]

/-- The bits of some octets of the message. -/
theorem getMsbD_octets {data : Bytes} {pos n : Nat} (hn : n ≤ 8) {m : BitVec 64}
    (h : octets data pos n = some m)
    (k : Nat) : m.getMsbD k = (decide (k < 8 * n) && dataBit data (8 * pos + k)) := by
  rw [octets] at h
  split at h
  · obtain rfl := Option.some.inj h
    clear h
    induction n with
    | zero => simp
    | succ n ih =>
      rw [List.range_succ, List.foldl_append, List.foldl_cons, List.foldl_nil, BitVec.getMsbD_or,
        ih (Nat.le_of_succ_le hn) (by omega), getMsbD_placed _ hn]
      by_cases hlow : k < 8 * n
      · simp [hlow, show k < 8 * (n + 1) by omega, show ¬8 * n ≤ k by omega]
      · by_cases hhigh : k < 8 * (n + 1)
        · have hdiv : (8 * pos + k) / 8 = pos + n := by omega
          have hmod : (8 * pos + k) % 8 = k - 8 * n := by omega
          simp [hlow, hhigh, show 8 * n ≤ k by omega, dataBit, hdiv, hmod]
        · have hout : (data.getD (pos + n) 0).toBitVec.getMsbD (k - 8 * n) = false :=
            BitVec.getMsbD_of_ge _ _ (by omega)
          simp only [hlow, hhigh, hout, decide_false, Bool.false_and, Bool.and_false, Bool.or_false]
  · exact absurd h (by simp)

/-- The block `i` of a message of `length` bits. -/
def messageBlock (data : Bytes) (length i : Nat) : BitVec 64 :=
  block 64 (((bits data).take length).drop (64 * i))

/-- The bits of a block of the message, with zeros behind its end. -/
theorem getD_message {data : Bytes} {length : Nat} (i k : Nat) :
    (((bits data).take length).drop (64 * i)).getD k false
      = (decide (64 * i + k < length) && dataBit data (64 * i + k)) := by
  rw [getD_drop]
  by_cases h : 64 * i + k < length
  · rw [getD_take_of_lt _ _ h, getD_bits, decide_eq_true h, Bool.true_and]
    rfl
  · rw [getD_take_of_le _ _ (Nat.le_of_not_lt h), decide_eq_false h, Bool.false_and]

/-- A block that the message fills. -/
theorem octets_full {data : Bytes} {length i : Nat} (hfull : 64 * i + 64 ≤ length)
    (hdata : length ≤ 8 * data.length) :
    octets data (8 * i) 8 = some (messageBlock data length i) := by
  have hread : ∃ m, octets data (8 * i) 8 = some m := by
    rw [octets, if_pos (by omega)]
    exact ⟨_, rfl⟩
  obtain ⟨m, hm⟩ := hread
  rw [hm, messageBlock]
  refine congrArg some (eq_block fun k hk => ?_)
  rw [getMsbD_octets (Nat.le_refl 8) hm, getD_message, decide_eq_true (by omega : k < 8 * 8),
    decide_eq_true (by omega : 64 * i + k < length)]
  congr 2
  omega

/-- The mask leaves the bits of the message in its last octet. -/
theorem getMsbD_mask8bit : ∀ n < 8, ∀ k < 8, (mask8bit n).getMsbD k = decide (k < n) := by decide

/-- The last block, with the bits behind the end of the message cleared. -/
theorem lastOctets_eq {data : Bytes} {n rem : Nat} (hpos : 0 < rem) (hrem : rem ≤ 64)
    (hdata : 64 * n + rem ≤ 8 * data.length) :
    lastOctets data (8 * n) rem = some (messageBlock data (64 * n + rem) n) := by
  have hread : ∃ m, octets data (8 * n) (rem / 8) = some m := by
    rw [octets, if_pos (by omega)]
    exact ⟨_, rfl⟩
  obtain ⟨m, hm⟩ := hread
  have hbits := getMsbD_octets (by omega : rem / 8 ≤ 8) hm
  have hspec : ∀ k, (decide (64 * n + k < 64 * n + rem) && dataBit data (64 * n + k))
      = (decide (k < rem) && dataBit data (8 * (8 * n) + k)) := fun k => by
    rw [decide_eq_decide.mpr (Nat.add_lt_add_iff_left : 64 * n + k < 64 * n + rem ↔ k < rem)]
    congr 2
    omega
  rw [lastOctets, hm, Option.bind_eq_bind, Option.bind_some, messageBlock]
  by_cases hpart : 0 < rem % 8
  · have hlt : 8 * n + rem / 8 < data.length := by omega
    have hoctet : data[8 * n + rem / 8]? = some (data.getD (8 * n + rem / 8) 0) := by
      rw [List.getElem?_eq_getElem hlt, List.getD_eq_getElem?_getD, List.getElem?_eq_getElem hlt,
        Option.getD_some]
    rw [if_pos hpart, hoctet, Option.bind_eq_bind, Option.bind_some]
    refine congrArg some (eq_block fun k hk => ?_)
    rw [BitVec.getMsbD_or, hbits, getMsbD_placed _ (by omega), BitVec.getMsbD_and, getD_message,
      hspec]
    -- The octet that the end of the message cuts has the bits from `8 * (rem / 8)` to `rem`.
    by_cases hlow : k < 8 * (rem / 8)
    · simp [hlow, show k < rem by omega, show ¬8 * (rem / 8) ≤ k by omega]
    · by_cases hin : k < 8 * (rem / 8) + 8
      · have hdiv : (8 * (8 * n) + k) / 8 = 8 * n + rem / 8 := by omega
        have hmod : (8 * (8 * n) + k) % 8 = k - 8 * (rem / 8) := by omega
        have hmask :=
          getMsbD_mask8bit (rem % 8) (Nat.mod_lt _ (by decide)) (k - 8 * (rem / 8)) (by omega)
        have hplace : decide (k - 8 * (rem / 8) < rem % 8) = decide (k < rem) :=
          decide_eq_decide.mpr (by omega)
        rw [hmask, hplace, dataBit, hdiv, hmod]
        simp [hlow, show 8 * (rem / 8) ≤ k by omega, Bool.and_comm]
      · have hout : (data.getD (8 * n + rem / 8) 0).toBitVec.getMsbD (k - 8 * (rem / 8)) = false :=
          BitVec.getMsbD_of_ge _ _ (by omega)
        simp only [hlow, hout, show ¬k < rem by omega, decide_false, Bool.false_and, Bool.and_false,
          Bool.or_false]
  · rw [if_neg hpart]
    refine congrArg some (eq_block fun k hk => ?_)
    have hwhole : k < 8 * (rem / 8) ↔ k < rem := by omega
    rw [hbits, getD_message, hspec, decide_eq_decide.mpr hwhole]

/-! ### The checksum -/

/-- The number of blocks of a message. -/
def nofBlocks (length : Nat) : Nat := (length + 63) / 64

def messageBlocks (data : Bytes) (length : Nat) : List (BitVec 64) :=
  (List.range (nofBlocks length)).map (messageBlock data length)

/-- The loop evaluates the polynomial of the full blocks. -/
theorem foldlM_octets {data : Bytes} {length n : Nat} (p : BitVec 64) (hn : 64 * n ≤ length)
    (hdata : length ≤ 8 * data.length) :
    (List.range n).foldlM (fun eval i => do
        let m ← octets data (8 * i) 8
        return mul64 (eval ^^^ m) p 0x1b) 0
      = some (((List.range n).map (messageBlock data length)).foldl (fun e m =>
        Binary.mul 0x1b (e ^^^ m) p) 0) := by
  induction n with
  | zero => rfl
  | succ n ih =>
    rw [List.range_succ, List.foldlM_append, ih (by omega), List.map_append, List.foldl_append]
    simp [octets_full (by omega : 64 * n + 64 ≤ length) hdata, mul64_eq]

/-- The octets of the checksum, the first one on top. -/
def macOctets (w : BitVec 32) : Octets 4 := fun i => UInt8.ofBitVec (octet w (3 - i.val))

/-- The octets of the code are those of the upper half and the keystream. -/
theorem macOctets_eq (eval : BitVec 64) (z : BitVec 32) :
    (fun i : Fin 4 => UInt8.ofBitVec
    ((eval >>> (56 - 8 * i.val) ^^^ (z >>> (24 - 8 * i.val)).setWidth 64).setWidth 8))
      = macOctets ((eval >>> 32).setWidth 32 ^^^ z) := by
  funext i
  refine congrArg UInt8.ofBitVec ?_
  have hi := i.isLt
  have hshift : 8 * (3 - i.val) = 24 - 8 * i.val := by omega
  have htop : 56 - 8 * i.val = 24 - 8 * i.val + 32 := by omega
  rw [octet, hshift, htop]
  ext k hk
  simp
  grind

/-- The value of the polynomial whose coefficients are the blocks of the message, without a constant
term. -/
noncomputable def messageValue (data : Bytes) (length : Nat) (p : BitVec 64) :
    Binary.Quotient 0x1b#64 :=
  ∑ i ∈ Finset.range (nofBlocks length),
    Binary.elem 0x1b (messageBlock data length i) * Binary.elem 0x1b p ^ (nofBlocks length - i)

/-- The evaluation is one in the field. Induction on the blocks. -/
theorem elem_foldl_messageBlocks (data : Bytes) (length : Nat) (p : BitVec 64) :
    Binary.elem 0x1b ((messageBlocks data length).foldl (fun e m => Binary.mul 0x1b (e ^^^ m) p) 0)
      = messageValue data length p := by
  rw [Binary.elem_horner, messageBlocks, messageValue, List.length_map, List.length_range]
  refine Finset.sum_congr rfl fun i hi => ?_
  have hlt := Finset.mem_range.mp hi
  rw [List.getD_eq_getElem?_getD, List.getElem?_map, List.getElem?_range hlt]
  rfl

/-- The checksum that the words `z` of the keystream give a message. -/
def IsChecksum (z : List (BitVec 32)) (data : Bytes) (length : Nat) (mac : Octets 4) : Prop :=
  ∃ eval : BitVec 64,
    Binary.elem 0x1b eval
      = (messageValue data length (wordPair (z.getD 0 0) (z.getD 1 0)) +
        Binary.elem 0x1b (BitVec.ofNat 64 length))
        * Binary.elem 0x1b (wordPair (z.getD 2 0) (z.getD 3 0))
    ∧ mac = macOctets ((eval >>> 32).setWidth 32 ^^^ z.getD 4 0)

/-- `f9` computes the checksum of every message that has bits and lies in the data. -/
theorem snow3gF9_spec (key : Octets 16) (count fresh dir : BitVec 32) {data : Bytes} {length : Nat}
    (hpos : 0 < length) (hdata : length ≤ 8 * data.length) (hlt : length < 2 ^ 32) :
    ∃ mac, snow3gF9 key count fresh dir data length = some mac
      ∧ IsChecksum (f9KeyStream key count fresh dir) data length mac := by
  generalize hz : f9KeyStream key count fresh dir = z
  generalize hp : wordPair (z.getD 0 0) (z.getD 1 0) = p
  generalize hq : wordPair (z.getD 2 0) (z.getD 3 0) = q
  -- All blocks but the last one are full.
  obtain ⟨n, rem, hlength, hrempos, hrem, hcount, hremBits⟩ :
      ∃ n rem, length = 64 * n + rem ∧ 0 < rem ∧ rem ≤ 64
        ∧ sub32 (add32 (length / 64) (if length % 64 = 0 then 1 else 2)) 2 = n
        ∧ (if length % 64 = 0 then 64 else length % 64) = rem := by
    by_cases h : length % 64 = 0
    · refine ⟨(length - 1) / 64, 64, by omega, by omega, by omega, ?_, if_pos h⟩
      rw [if_pos h, add32_of_lt (by omega), sub32_of_le (by omega)]
      omega
    · refine ⟨(length - 1) / 64, length % 64, by omega, by omega, by omega, ?_, if_neg h⟩
      rw [if_neg h, add32_of_lt (by omega), sub32_of_le (by omega)]
      omega
  have hblocks : nofBlocks length = n + 1 := by
    rw [nofBlocks]
    omega
  have hlast : lastOctets data (8 * n) rem = some (messageBlock data length n) := by
    rw [hlength]
    exact lastOctets_eq hrempos hrem (hlength ▸ hdata)
  have hfold := foldlM_octets p (by omega : 64 * n ≤ length) hdata
  refine ⟨_, ?_, mul64 ((messageBlocks data length).foldl (fun e m => Binary.mul 0x1b (e ^^^ m) p) 0
    ^^^ BitVec.ofNat 64 length) q 0x1b, ?_, rfl⟩
  · rw [snow3gF9]
    simp only [hz, hp, hq, hcount, hremBits]
    rw [hfold, Option.bind_eq_bind, Option.bind_some, hlast, Option.bind_some, Option.pure_def,
      macOctets_eq, messageBlocks, hblocks, List.range_succ, List.map_append, List.foldl_append,
      mul64_eq _ p]
    rfl
  · rw [hp, hq, mul64_eq, Binary.elem_mul, Binary.elem_xor, elem_foldl_messageBlocks]

/-- A message of 83 bits, in two blocks. -/
theorem snow3gF9_spec_bits :
    let key : Octets 16 := fun i => 0x2b + 11 * UInt8.ofNat i
    let data : Bytes := [0x33, 0x32, 0x34, 0x62, 0x63, 0x39, 0x38, 0x61, 0x37, 0x34, 0x60]
    ∃ mac, snow3gF9 key 0x38a6f056 0xb8aefda9 1 data 83 = some mac
      ∧ IsChecksum (f9KeyStream key 0x38a6f056 0xb8aefda9 1) data 83 mac :=
  snow3gF9_spec _ 0x38a6f056 0xb8aefda9 1 (by decide) (by decide) (by decide)

end SrsUE.Security
