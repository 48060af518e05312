import SrsUE.Security.Rijndael

/-!
# `SrsUE.Security.Milenage`: the authentication functions

The Milenage functions of `liblte_security.cc`, which the functions `security_milenage_*` of
`security.cc` forward to. The pointers are never null.

The functions are near copies of each other. What two of them share is one definition here.
-/

set_option autoImplicit false

namespace SrsUE.Security

open SrsUE.Upper (Octets)

attribute [local instance] neZero_sixteen

/-- `ROUND_KEY_STRUCT` -/
abbrev RoundKeyStruct := Vector StateStruct 11

/-- `compute_OPc` -/
def computeOPc (rk : RoundKeyStruct) (op : Octets 16) : Octets 16 :=
  fun i => rijndaelEncrypt op rk i ^^^ op i

/-- `temp` -/
def milenageTemp (rk : RoundKeyStruct) (opC rand : Octets 16) : Octets 16 :=
  rijndaelEncrypt (fun i => rand i ^^^ opC i) rk

/-- `in1` -/
def milenageIn1 (sqn : Octets 6) (amf : Octets 2) : Octets 16 :=
  Fin.append (Fin.append (Fin.append sqn amf) sqn) amf

/-- `out1`: the octet `i` of `in1` goes to the octet `(i + 8) % 16` of the input of the cipher. -/
def milenageOut1 (k op rand : Octets 16) (sqn : Octets 6) (amf : Octets 2) : Octets 16 :=
  let rk := rijndaelKeySchedule k
  let opC := computeOPc rk op
  let temp := milenageTemp rk opC rand
  let in1 := milenageIn1 sqn amf
  let out1 := rijndaelEncrypt (fun j => in1 (j - 8) ^^^ opC (j - 8) ^^^ temp j) rk
  fun i => out1 i ^^^ opC i

/-- `out`: the octet `i` goes to the octet `(i + shift) % 16` of the input of the cipher, and a
constant over the last one. -/
def milenageOut (rk : RoundKeyStruct) (opC temp : Octets 16) (shift : Fin 16) (constant : UInt8) :
    Octets 16 :=
  let out := rijndaelEncrypt
    (fun j => temp (j - shift) ^^^ opC (j - shift) ^^^ if j = 15 then constant else 0) rk
  fun i => out i ^^^ opC i

/-- `liblte_security_milenage_f1` -/
def liblteSecurityMilenageF1 (k op rand : Octets 16) (sqn : Octets 6) (amf : Octets 2) : Octets 8 :=
  fun i => milenageOut1 k op rand sqn amf (i.castAdd 8)

/-- `liblte_security_milenage_f1_star` -/
def liblteSecurityMilenageF1Star (k op rand : Octets 16) (sqn : Octets 6) (amf : Octets 2) :
    Octets 8 :=
  fun i => milenageOut1 k op rand sqn amf (i.natAdd 8)

/-- `liblte_security_milenage_f2345`: RES, CK, IK and AK. -/
def liblteSecurityMilenageF2345 (k op rand : Octets 16) : Octets 8 × Octets 16 × Octets 16 ×
    Octets 6 :=
  let rk := rijndaelKeySchedule k
  let opC := computeOPc rk op
  let temp := milenageTemp rk opC rand
  let out := milenageOut rk opC temp 0 1
  (fun i => out (i.natAdd 8), milenageOut rk opC temp 12 2, milenageOut rk opC temp 8 4,
    fun i => out (i.castAdd 10))

/-- `liblte_security_milenage_f5_star` -/
def liblteSecurityMilenageF5Star (k op rand : Octets 16) : Octets 6 :=
  let rk := rijndaelKeySchedule k
  let opC := computeOPc rk op
  let temp := milenageTemp rk opC rand
  let out := milenageOut rk opC temp 4 8
  fun i => out (i.castAdd 10)

end SrsUE.Security
