import Mathlib.Tactic.Common

/-!
# `SrsUE.Lib.Milenage`: the authentication functions of a subscriber

Milenage for any function `e` on blocks in the place of the block cipher under the subscriber's key.
`op` is the field of the operator, and the functions differ in a rotation and in a constant.
-/

set_option autoImplicit false

namespace SrsUE.Lib.Milenage

variable (e : BitVec 128 → BitVec 128) (op rand : BitVec 128)

def opC : BitVec 128 := e op ^^^ op

def temp : BitVec 128 := e (rand ^^^ opC e op)

/-- SQN and AMF, twice. -/
def in1 (sqn : BitVec 48) (amf : BitVec 16) : BitVec 128 := sqn ++ amf ++ sqn ++ amf

/-- The one output that SQN and AMF go into. -/
def out1 (sqn : BitVec 48) (amf : BitVec 16) : BitVec 128 :=
  e (temp e op rand ^^^ (in1 sqn amf ^^^ opC e op).rotateLeft 64) ^^^ opC e op

/-- The other outputs. -/
def out (rotation : Nat) (constant : BitVec 128) : BitVec 128 :=
  e ((temp e op rand ^^^ opC e op).rotateLeft rotation ^^^ constant) ^^^ opC e op

/-- The network authentication code, MAC-A. -/
def f1 (sqn : BitVec 48) (amf : BitVec 16) : BitVec 64 := (out1 e op rand sqn amf).extractLsb' 64 64

/-- The resynchronisation authentication code, MAC-S. -/
def f1Star (sqn : BitVec 48) (amf : BitVec 16) : BitVec 64 :=
  (out1 e op rand sqn amf).extractLsb' 0 64

/-- The response, RES. -/
def f2 : BitVec 64 := (out e op rand 0 1).extractLsb' 0 64

/-- The confidentiality key, CK. -/
def f3 : BitVec 128 := out e op rand 32 2

/-- The integrity key, IK. -/
def f4 : BitVec 128 := out e op rand 64 4

/-- The anonymity key, AK. -/
def f5 : BitVec 48 := (out e op rand 0 1).extractLsb' 80 48

/-- The anonymity key for resynchronisation. -/
def f5Star : BitVec 48 := (out e op rand 96 8).extractLsb' 80 48

end SrsUE.Lib.Milenage
