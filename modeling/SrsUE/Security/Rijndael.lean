import Mathlib.Data.Fin.VecNotation
import SrsUE.Upper.Usim

/-!
# `SrsUE.Security.Rijndael`: the block cipher of the authentication functions

The local functions of `liblte_security.cc`: Rijndael for keys and blocks of 16 octets, with tables
for the S-box and for the multiplication by `x`.
-/

set_option autoImplicit false

namespace SrsUE.Security

open SrsUE.Upper (Octets)

/-! The indices of the arrays are numerals of `Fin`. -/

local instance neZero_four : NeZero 4 := ⟨by decide⟩
local instance neZero_eleven : NeZero 11 := ⟨by decide⟩
local instance neZero_sixteen : NeZero 16 := ⟨by decide⟩

/-- `S` -/
def sTable : List Nat :=
  [99, 124, 119, 123, 242, 107, 111, 197, 48, 1, 103, 43, 254, 215, 171, 118,
    202, 130, 201, 125, 250, 89, 71, 240, 173, 212, 162, 175, 156, 164, 114, 192,
    183, 253, 147, 38, 54, 63, 247, 204, 52, 165, 229, 241, 113, 216, 49, 21,
    4, 199, 35, 195, 24, 150, 5, 154, 7, 18, 128, 226, 235, 39, 178, 117,
    9, 131, 44, 26, 27, 110, 90, 160, 82, 59, 214, 179, 41, 227, 47, 132,
    83, 209, 0, 237, 32, 252, 177, 91, 106, 203, 190, 57, 74, 76, 88, 207,
    208, 239, 170, 251, 67, 77, 51, 133, 69, 249, 2, 127, 80, 60, 159, 168,
    81, 163, 64, 143, 146, 157, 56, 245, 188, 182, 218, 33, 16, 255, 243, 210,
    205, 12, 19, 236, 95, 151, 68, 23, 196, 167, 126, 61, 100, 93, 25, 115,
    96, 129, 79, 220, 34, 42, 144, 136, 70, 238, 184, 20, 222, 94, 11, 219,
    224, 50, 58, 10, 73, 6, 36, 92, 194, 211, 172, 98, 145, 149, 228, 121,
    231, 200, 55, 109, 141, 213, 78, 169, 108, 86, 244, 234, 101, 122, 174, 8,
    186, 120, 37, 46, 28, 166, 180, 198, 232, 221, 116, 31, 75, 189, 139, 138,
    112, 62, 181, 102, 72, 3, 246, 14, 97, 53, 87, 185, 134, 193, 29, 158,
    225, 248, 152, 17, 105, 217, 142, 148, 155, 30, 135, 233, 206, 85, 40, 223,
    140, 161, 137, 13, 191, 230, 66, 104, 65, 153, 45, 15, 176, 84, 187, 22]

/-- `X_TIME` -/
def xTimeTable : List Nat :=
  [0, 2, 4, 6, 8, 10, 12, 14, 16, 18, 20, 22, 24, 26, 28, 30,
    32, 34, 36, 38, 40, 42, 44, 46, 48, 50, 52, 54, 56, 58, 60, 62,
    64, 66, 68, 70, 72, 74, 76, 78, 80, 82, 84, 86, 88, 90, 92, 94,
    96, 98, 100, 102, 104, 106, 108, 110, 112, 114, 116, 118, 120, 122, 124, 126,
    128, 130, 132, 134, 136, 138, 140, 142, 144, 146, 148, 150, 152, 154, 156, 158,
    160, 162, 164, 166, 168, 170, 172, 174, 176, 178, 180, 182, 184, 186, 188, 190,
    192, 194, 196, 198, 200, 202, 204, 206, 208, 210, 212, 214, 216, 218, 220, 222,
    224, 226, 228, 230, 232, 234, 236, 238, 240, 242, 244, 246, 248, 250, 252, 254,
    27, 25, 31, 29, 19, 17, 23, 21, 11, 9, 15, 13, 3, 1, 7, 5,
    59, 57, 63, 61, 51, 49, 55, 53, 43, 41, 47, 45, 35, 33, 39, 37,
    91, 89, 95, 93, 83, 81, 87, 85, 75, 73, 79, 77, 67, 65, 71, 69,
    123, 121, 127, 125, 115, 113, 119, 117, 107, 105, 111, 109, 99, 97, 103, 101,
    155, 153, 159, 157, 147, 145, 151, 149, 139, 137, 143, 141, 131, 129, 135, 133,
    187, 185, 191, 189, 179, 177, 183, 181, 171, 169, 175, 173, 163, 161, 167, 165,
    219, 217, 223, 221, 211, 209, 215, 213, 203, 201, 207, 205, 195, 193, 199, 197,
    251, 249, 255, 253, 243, 241, 247, 245, 235, 233, 239, 237, 227, 225, 231, 229]

def sBox (b : BitVec 8) : BitVec 8 := BitVec.ofNat 8 (sTable.getD b.toNat 0)

def xTime (b : BitVec 8) : BitVec 8 := BitVec.ofNat 8 (xTimeTable.getD b.toNat 0)

/-- `STATE_STRUCT`, and one round key of `ROUND_KEY_STRUCT`: four rows of four octets. -/
structure StateStruct where
  state : Vector (Vector (BitVec 8) 4) 4
deriving DecidableEq

namespace StateStruct

def of (f : Fin 4 → Fin 4 → BitVec 8) : StateStruct := ⟨Vector.ofFn fun i => Vector.ofFn (f i)⟩

/-- `state[i][j]` -/
def cell (s : StateStruct) (i j : Fin 4) : BitVec 8 := (s.state.get i).get j

/-- The cells of a state that is given by them. -/
@[simp] theorem cell_of (f : Fin 4 → Fin 4 → BitVec 8) (i j : Fin 4) : (of f).cell i j = f i j := by
  show (of f).state[i][j] = f i j
  simp [of]

/-- `state[i & 0x03][i >> 2] = input[i]` for all `i`. -/
def load (input : Octets 16) : StateStruct :=
  of fun i j => (input (Fin.ofNat 16 (4 * j + i))).toBitVec

/-- `output[i] = state[i & 0x03][i >> 2]` for all `i`. -/
def store (s : StateStruct) : Octets 16 :=
  fun i => UInt8.ofBitVec (s.cell (Fin.ofNat 4 i) (Fin.ofNat 4 (i / 4)))

end StateStruct

open StateStruct

/-- The step of `rijndael_key_schedule` from one round key to the next. -/
def nextRoundKey (rk : StateStruct) (roundConst : BitVec 8) : StateStruct :=
  let first : Fin 4 → BitVec 8 :=
    ![sBox (rk.cell 1 3) ^^^ rk.cell 0 0 ^^^ roundConst, sBox (rk.cell 2 3) ^^^ rk.cell 1 0,
      sBox (rk.cell 3 3) ^^^ rk.cell 2 0,
      sBox (rk.cell 0 3) ^^^ rk.cell 3 0]
  of fun i =>
    let k1 := rk.cell i 1 ^^^ first i
    let k2 := rk.cell i 2 ^^^ k1
    ![first i, k1, k2, rk.cell i 3 ^^^ k2]

/-- The loop of `rijndael_key_schedule`: the round key `i` with the constant for the next one. -/
def roundKeyAt (key : Octets 16) : Nat → StateStruct × BitVec 8
  | 0 => (load key, 1)
  | i + 1 =>
    let (rk, roundConst) := roundKeyAt key i
    (nextRoundKey rk roundConst, xTime roundConst)

/-- `rijndael_key_schedule` -/
def rijndaelKeySchedule (key : Octets 16) : Vector StateStruct 11 :=
  Vector.ofFn fun i => (roundKeyAt key i).1

/-- `key_add` -/
def keyAdd (s rk : StateStruct) : StateStruct := of fun i j => s.cell i j ^^^ rk.cell i j

/-- `byte_sub` -/
def byteSub (s : StateStruct) : StateStruct := of fun i j => sBox (s.cell i j)

/-- `shift_row` -/
def shiftRow (s : StateStruct) : StateStruct :=
  of ![![s.cell 0 0, s.cell 0 1, s.cell 0 2, s.cell 0 3],
    ![s.cell 1 1, s.cell 1 2, s.cell 1 3, s.cell 1 0],
    ![s.cell 2 2, s.cell 2 3, s.cell 2 0, s.cell 2 1],
    ![s.cell 3 3, s.cell 3 0, s.cell 3 1, s.cell 3 2]]

/-- `mix_column` -/
def mixColumn (s : StateStruct) : StateStruct :=
  let temp (j : Fin 4) : BitVec 8 := s.cell 0 j ^^^ s.cell 1 j ^^^ s.cell 2 j ^^^ s.cell 3 j
  of fun i j => s.cell i j ^^^ (temp j ^^^ xTime (s.cell i j ^^^ s.cell (i + 1) j))

/-- The rounds 1 to 9. -/
def rijndaelRound (s rk : StateStruct) : StateStruct := keyAdd (mixColumn (shiftRow (byteSub s))) rk

/-- `rijndael_encrypt` -/
def rijndaelEncrypt (input : Octets 16) (rk : Vector StateStruct 11) : Octets 16 :=
  let s := keyAdd (load input) rk[0]
  let s := (List.range 9).foldl (fun s r => rijndaelRound s (rk.get (Fin.ofNat 11 (r + 1)))) s
  store (keyAdd (shiftRow (byteSub s)) rk[10])

end SrsUE.Security
