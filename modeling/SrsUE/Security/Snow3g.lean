import Mathlib.Data.Fin.VecNotation
import Mathlib.Logic.Function.Iterate
import SrsUE.Rlc.Common
import SrsUE.Upper.Usim

/-!
# `SrsUE.Security.Snow3g`: SNOW 3G and the integrity algorithm on top of it

`snow_3g.cc`: the keystream generator with its shift register and its state machine, and `f9`, which
the integrity algorithm EIA1 calls. `f8`, which nothing calls, is left out.

The registers are global variables in the source, and every call of `f9` sets them anew.
-/

set_option autoImplicit false

namespace SrsUE.Security

open SrsUE.Rlc (Bytes add32 sub32)
open SrsUE.Upper (Octets)

/-! The indices of the registers and of the words of a key are numerals of `Fin`. -/

local instance neZero_registers : NeZero 16 := ⟨by decide⟩
local instance neZero_words : NeZero 4 := ⟨by decide⟩

/-! ### Tables -/

/-- The Rijndael S-box `SR`. -/
def srTable : List Nat :=
  [0x63, 0x7C, 0x77, 0x7B, 0xF2, 0x6B, 0x6F, 0xC5, 0x30, 0x01, 0x67, 0x2B, 0xFE, 0xD7, 0xAB, 0x76,
    0xCA, 0x82, 0xC9, 0x7D, 0xFA, 0x59, 0x47, 0xF0, 0xAD, 0xD4, 0xA2, 0xAF, 0x9C, 0xA4, 0x72, 0xC0,
    0xB7, 0xFD, 0x93, 0x26, 0x36, 0x3F, 0xF7, 0xCC, 0x34, 0xA5, 0xE5, 0xF1, 0x71, 0xD8, 0x31, 0x15,
    0x04, 0xC7, 0x23, 0xC3, 0x18, 0x96, 0x05, 0x9A, 0x07, 0x12, 0x80, 0xE2, 0xEB, 0x27, 0xB2, 0x75,
    0x09, 0x83, 0x2C, 0x1A, 0x1B, 0x6E, 0x5A, 0xA0, 0x52, 0x3B, 0xD6, 0xB3, 0x29, 0xE3, 0x2F, 0x84,
    0x53, 0xD1, 0x00, 0xED, 0x20, 0xFC, 0xB1, 0x5B, 0x6A, 0xCB, 0xBE, 0x39, 0x4A, 0x4C, 0x58, 0xCF,
    0xD0, 0xEF, 0xAA, 0xFB, 0x43, 0x4D, 0x33, 0x85, 0x45, 0xF9, 0x02, 0x7F, 0x50, 0x3C, 0x9F, 0xA8,
    0x51, 0xA3, 0x40, 0x8F, 0x92, 0x9D, 0x38, 0xF5, 0xBC, 0xB6, 0xDA, 0x21, 0x10, 0xFF, 0xF3, 0xD2,
    0xCD, 0x0C, 0x13, 0xEC, 0x5F, 0x97, 0x44, 0x17, 0xC4, 0xA7, 0x7E, 0x3D, 0x64, 0x5D, 0x19, 0x73,
    0x60, 0x81, 0x4F, 0xDC, 0x22, 0x2A, 0x90, 0x88, 0x46, 0xEE, 0xB8, 0x14, 0xDE, 0x5E, 0x0B, 0xDB,
    0xE0, 0x32, 0x3A, 0x0A, 0x49, 0x06, 0x24, 0x5C, 0xC2, 0xD3, 0xAC, 0x62, 0x91, 0x95, 0xE4, 0x79,
    0xE7, 0xC8, 0x37, 0x6D, 0x8D, 0xD5, 0x4E, 0xA9, 0x6C, 0x56, 0xF4, 0xEA, 0x65, 0x7A, 0xAE, 0x08,
    0xBA, 0x78, 0x25, 0x2E, 0x1C, 0xA6, 0xB4, 0xC6, 0xE8, 0xDD, 0x74, 0x1F, 0x4B, 0xBD, 0x8B, 0x8A,
    0x70, 0x3E, 0xB5, 0x66, 0x48, 0x03, 0xF6, 0x0E, 0x61, 0x35, 0x57, 0xB9, 0x86, 0xC1, 0x1D, 0x9E,
    0xE1, 0xF8, 0x98, 0x11, 0x69, 0xD9, 0x8E, 0x94, 0x9B, 0x1E, 0x87, 0xE9, 0xCE, 0x55, 0x28, 0xDF,
    0x8C, 0xA1, 0x89, 0x0D, 0xBF, 0xE6, 0x42, 0x68, 0x41, 0x99, 0x2D, 0x0F, 0xB0, 0x54, 0xBB, 0x16]

/-- The S-box `SQ`. -/
def sqTable : List Nat :=
  [0x25, 0x24, 0x73, 0x67, 0xD7, 0xAE, 0x5C, 0x30, 0xA4, 0xEE, 0x6E, 0xCB, 0x7D, 0xB5, 0x82, 0xDB,
    0xE4, 0x8E, 0x48, 0x49, 0x4F, 0x5D, 0x6A, 0x78, 0x70, 0x88, 0xE8, 0x5F, 0x5E, 0x84, 0x65, 0xE2,
    0xD8, 0xE9, 0xCC, 0xED, 0x40, 0x2F, 0x11, 0x28, 0x57, 0xD2, 0xAC, 0xE3, 0x4A, 0x15, 0x1B, 0xB9,
    0xB2, 0x80, 0x85, 0xA6, 0x2E, 0x02, 0x47, 0x29, 0x07, 0x4B, 0x0E, 0xC1, 0x51, 0xAA, 0x89, 0xD4,
    0xCA, 0x01, 0x46, 0xB3, 0xEF, 0xDD, 0x44, 0x7B, 0xC2, 0x7F, 0xBE, 0xC3, 0x9F, 0x20, 0x4C, 0x64,
    0x83, 0xA2, 0x68, 0x42, 0x13, 0xB4, 0x41, 0xCD, 0xBA, 0xC6, 0xBB, 0x6D, 0x4D, 0x71, 0x21, 0xF4,
    0x8D, 0xB0, 0xE5, 0x93, 0xFE, 0x8F, 0xE6, 0xCF, 0x43, 0x45, 0x31, 0x22, 0x37, 0x36, 0x96, 0xFA,
    0xBC, 0x0F, 0x08, 0x52, 0x1D, 0x55, 0x1A, 0xC5, 0x4E, 0x23, 0x69, 0x7A, 0x92, 0xFF, 0x5B, 0x5A,
    0xEB, 0x9A, 0x1C, 0xA9, 0xD1, 0x7E, 0x0D, 0xFC, 0x50, 0x8A, 0xB6, 0x62, 0xF5, 0x0A, 0xF8, 0xDC,
    0x03, 0x3C, 0x0C, 0x39, 0xF1, 0xB8, 0xF3, 0x3D, 0xF2, 0xD5, 0x97, 0x66, 0x81, 0x32, 0xA0, 0x00,
    0x06, 0xCE, 0xF6, 0xEA, 0xB7, 0x17, 0xF7, 0x8C, 0x79, 0xD6, 0xA7, 0xBF, 0x8B, 0x3F, 0x1F, 0x53,
    0x63, 0x75, 0x35, 0x2C, 0x60, 0xFD, 0x27, 0xD3, 0x94, 0xA5, 0x7C, 0xA1, 0x05, 0x58, 0x2D, 0xBD,
    0xD9, 0xC7, 0xAF, 0x6B, 0x54, 0x0B, 0xE0, 0x38, 0x04, 0xC8, 0x9D, 0xE7, 0x14, 0xB1, 0x87, 0x9C,
    0xDF, 0x6F, 0xF9, 0xDA, 0x2A, 0xC4, 0x59, 0x16, 0x74, 0x91, 0xAB, 0x26, 0x61, 0x76, 0x34, 0x2B,
    0xAD, 0x99, 0xFB, 0x72, 0xEC, 0x33, 0x12, 0xDE, 0x98, 0x3B, 0xC0, 0x9B, 0x3E, 0x18, 0x10, 0x3A,
    0x56, 0xE1, 0x77, 0xC9, 0x1E, 0x9E, 0x95, 0xA3, 0x90, 0x19, 0xA8, 0x6C, 0x09, 0xD0, 0xF0, 0x86]

def sr (b : BitVec 8) : BitVec 8 := BitVec.ofNat 8 (srTable.getD b.toNat 0)

def sq (b : BitVec 8) : BitVec 8 := BitVec.ofNat 8 (sqTable.getD b.toNat 0)

/-! ### Arithmetic on octets -/

/-- `MULx` -/
def mulx (v c : BitVec 8) : BitVec 8 := if v &&& 0x80 ≠ 0 then v <<< 1 ^^^ c else v <<< 1

/-- `MULxPOW` -/
def mulxPow (v : BitVec 8) (i : Nat) (c : BitVec 8) : BitVec 8 :=
  match i with
  | 0 => v
  | i + 1 => mulx (mulxPow v i c) c

/-- The four octets of a word, the first one on top. -/
def word (b0 b1 b2 b3 : BitVec 8) : BitVec 32 :=
  b0.setWidth 32 <<< 24 ||| b1.setWidth 32 <<< 16 ||| b2.setWidth 32 <<< 8 ||| b3.setWidth 32

/-- `MULalpha` -/
def mulAlpha (c : BitVec 8) : BitVec 32 :=
  word (mulxPow c 23 0xa9) (mulxPow c 245 0xa9) (mulxPow c 48 0xa9) (mulxPow c 239 0xa9)

/-- `DIValpha` -/
def divAlpha (c : BitVec 8) : BitVec 32 :=
  word (mulxPow c 16 0xa9) (mulxPow c 39 0xa9) (mulxPow c 6 0xa9) (mulxPow c 64 0xa9)

/-- What `S1` and `S2` do with the four octets from the S-box. -/
def mixWord (c s0 s1 s2 s3 : BitVec 8) : BitVec 32 :=
  word (mulx s0 c ^^^ s1 ^^^ s2 ^^^ (mulx s3 c ^^^ s3))
    ((mulx s0 c ^^^ s0) ^^^ mulx s1 c ^^^ s2 ^^^ s3)
    (s0 ^^^ (mulx s1 c ^^^ s1) ^^^ mulx s2 c ^^^ s3)
      (s0 ^^^ s1 ^^^ (mulx s2 c ^^^ s2) ^^^ mulx s3 c)

/-- `S1` -/
def s1 (w : BitVec 32) : BitVec 32 :=
  mixWord 0x1b (sr ((w >>> 24).setWidth 8)) (sr ((w >>> 16).setWidth 8)) (sr ((w >>> 8).setWidth 8))
    (sr (w.setWidth 8))

/-- `S2` -/
def s2 (w : BitVec 32) : BitVec 32 :=
  mixWord 0x69 (sq ((w >>> 24).setWidth 8)) (sq ((w >>> 16).setWidth 8)) (sq ((w >>> 8).setWidth 8))
    (sq (w.setWidth 8))

/-! ### The generator -/

/-- The registers `LFSR_S0` to `LFSR_S15` and `FSM_R1` to `FSM_R3`. -/
structure Snow3g where
  lfsr : Fin 16 → BitVec 32
  r1 : BitVec 32
  r2 : BitVec 32
  r3 : BitVec 32

namespace Snow3g

/-- The word that comes into the shift register, but for `F`. -/
def feedback (s : Snow3g) : BitVec 32 :=
  (s.lfsr 0 <<< 8 &&& 0xffffff00#32) ^^^ mulAlpha ((s.lfsr 0 >>> 24).setWidth 8) ^^^ s.lfsr 2
  ^^^ (s.lfsr 11 >>> 8 &&& 0x00ffffff#32) ^^^ divAlpha ((s.lfsr 11).setWidth 8)

/-- The words of the shift register move down by one place. -/
def shiftIn (s : Snow3g) (v : BitVec 32) : Snow3g :=
  { s with lfsr := fun i => if i.val < 15 then s.lfsr (i + 1) else v }

/-- `ClockLFSRInitializationMode` -/
def clockLfsrInitializationMode (s : Snow3g) (f : BitVec 32) : Snow3g :=
  s.shiftIn (s.feedback ^^^ f)

/-- `ClockLFSRKeyStreamMode` -/
def clockLfsrKeyStreamMode (s : Snow3g) : Snow3g := s.shiftIn s.feedback

/-- `ClockFSM` -/
def clockFsm (s : Snow3g) : BitVec 32 × Snow3g :=
  (s.lfsr 15 + s.r1 ^^^ s.r2,
    { s with r1 := s.r2 + (s.r3 ^^^ s.lfsr 5), r2 := s1 s.r1, r3 := s2 s.r2 })

/-- The loop of `snow3g_initialize`. -/
def initializationStep (s : Snow3g) : Snow3g :=
  let (f, s') := s.clockFsm
  s'.clockLfsrInitializationMode f

/-- The loop of `snow3g_generate_keystream`. -/
def keyStreamStep (s : Snow3g) : Snow3g := s.clockFsm.2.clockLfsrKeyStreamMode

def keyStreamWord (s : Snow3g) : BitVec 32 :=
  let (f, s') := s.clockFsm
  f ^^^ s'.lfsr 0

def keyStream : Nat → Snow3g → List (BitVec 32)
  | 0, _ => []
  | n + 1, s => s.keyStreamWord :: keyStream n s.keyStreamStep

end Snow3g

/-- `snow3g_initialize` -/
def snow3gInitialize (k iv : Fin 4 → BitVec 32) : Snow3g :=
  let ones : BitVec 32 := 0xffffffff
  let start : Snow3g :=
    { lfsr := ![k 0 ^^^ ones, k 1 ^^^ ones, k 2 ^^^ ones, k 3 ^^^ ones, k 0, k 1, k 2, k 3,
        k 0 ^^^ ones, k 1 ^^^ ones ^^^ iv 3, k 2 ^^^ ones ^^^ iv 2, k 3 ^^^ ones, k 0 ^^^ iv 1, k 1,
        k 2, k 3 ^^^ iv 0]
      r1 := 0, r2 := 0, r3 := 0 }
  Snow3g.initializationStep^[32] start

/-- `snow3g_generate_keystream` -/
def snow3gGenerateKeystream (n : Nat) (s : Snow3g) : List (BitVec 32) := s.keyStreamStep.keyStream n

/-! ### `f9` -/

/-- `MUL64x` -/
def mul64x (v c : BitVec 64) : BitVec 64 :=
  if v &&& 0x8000000000000000 ≠ 0 then v <<< 1 ^^^ c else v <<< 1

/-- `MUL64xPOW` -/
def mul64xPow (v : BitVec 64) (i : Nat) (c : BitVec 64) : BitVec 64 :=
  match i with
  | 0 => v
  | i + 1 => mul64x (mul64xPow v i c) c

/-- `MUL64` -/
def mul64 (v p c : BitVec 64) : BitVec 64 :=
  (List.range 64).foldl (fun result i => if (p >>> i) &&& 0x1 ≠ 0 then result ^^^ mul64xPow v i c
    else result) 0

/-- `mask8bit` -/
def mask8bit (n : Nat) : BitVec 8 := 0xff ^^^ (1 <<< (8 - n) - 1)

/-- The `n` octets of the message from the octet `pos` on, the first one on top. It is `none` where
they are behind the end of `data`. -/
def octets (data : Bytes) (pos n : Nat) : Option (BitVec 64) :=
  if pos + n ≤ data.length then
    some ((List.range n).foldl
      (fun m i => m ||| (data.getD (pos + i) 0).toBitVec.setWidth 64 <<< (8 * (7 - i))) 0)
  else none

/-- `M_D_2`: the last `remBits` bits of the message, from the octet `pos` on. -/
def lastOctets (data : Bytes) (pos remBits : Nat) : Option (BitVec 64) := do
  let m ← octets data pos (remBits / 8)
  if 0 < remBits % 8 then
    let b ← data[pos + remBits / 8]?
    return m ||| (b.toBitVec &&& mask8bit (remBits % 8)).setWidth 64 <<< (8 * (7 - remBits / 8))
  else return m

/-- The word `i` of the key. -/
def keyWord (key : Octets 16) (i : Fin 4) : BitVec 32 :=
  (key (Fin.ofNat 16 (4 * i))).toBitVec.setWidth 32 <<< 24
  ^^^ (key (Fin.ofNat 16 (4 * i + 1))).toBitVec.setWidth 32 <<< 16
  ^^^ (key (Fin.ofNat 16 (4 * i + 2))).toBitVec.setWidth 32 <<< 8
  ^^^ (key (Fin.ofNat 16 (4 * i + 3))).toBitVec.setWidth 32

/-- Two words as one of 64 bits. -/
def wordPair (high low : BitVec 32) : BitVec 64 := high.setWidth 64 <<< 32 ||| low.setWidth 64

/-- The five words of keystream of `snow3g_f9`. -/
def f9KeyStream (key : Octets 16) (count fresh dir : BitVec 32) : List (BitVec 32) :=
  let k : Fin 4 → BitVec 32 := fun i => keyWord key (3 - i)
  let iv : Fin 4 → BitVec 32 := ![fresh ^^^ dir <<< 15, count ^^^ dir <<< 31, fresh, count]
  snow3gGenerateKeystream 5 (snow3gInitialize k iv)

/-- `snow3g_f9`, of the first `length` bits of `data`. It is `none` where it reads behind the end of
`data`. The positions `8 * i` do not leave their type for the lengths that EIA1 gives. -/
def snow3gF9 (key : Octets 16) (count fresh dir : BitVec 32) (data : Bytes) (length : Nat) :
    Option (Octets 4) := do
  let z := f9KeyStream key count fresh dir
  let p := wordPair (z.getD 0 0) (z.getD 1 0)
  let q := wordPair (z.getD 2 0) (z.getD 3 0)
  let d := add32 (length / 64) (if length % 64 = 0 then 1 else 2)
  let eval ← (List.range (sub32 d 2)).foldlM
    (fun eval i => do
      let m ← octets data (8 * i) 8
      return mul64 (eval ^^^ m) p 0x1b) 0
  let remBits := if length % 64 = 0 then 64 else length % 64
  let m ← lastOctets data (8 * sub32 d 2) remBits
  let eval := mul64 (eval ^^^ m) p 0x1b
  let eval := mul64 (eval ^^^ BitVec.ofNat 64 length) q 0x1b
  return fun i => UInt8.ofBitVec
    ((eval >>> (56 - 8 * i.val) ^^^ ((z.getD 4 0) >>> (24 - 8 * i.val)).setWidth 64).setWidth 8)

end SrsUE.Security
