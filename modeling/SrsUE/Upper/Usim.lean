import Mathlib.Algebra.Order.Ring.Nat
import Mathlib.Data.Fin.Tuple.Basic
import Mathlib.Tactic.Common

/-!
# `SrsUE.Upper.Usim`: the authentication of the network and the keys

The part of `usim.cc` that answers an authentication request and derives the NAS keys. Milenage, the
key derivation and the integrity algorithms are functions of any kind, given as a
`SecurityFunctions`.

An array of octets is a function from its indices.
-/

set_option autoImplicit false

namespace SrsUE.Upper

/-- A `uint8_t` array. -/
abbrev Octets (n : Nat) := Fin n → UInt8

/-- `CIPHERING_ALGORITHM_ID_ENUM`, with the values that a cast from a message can give. -/
inductive CipheringAlgorithmId where
  | eea0
  | eea1
  | eea2
  | other (n : Nat)
deriving DecidableEq, Repr

/-- `INTEGRITY_ALGORITHM_ID_ENUM`, with the values that a cast from a message can give. -/
inductive IntegrityAlgorithmId where
  | eia0
  | eia1
  | eia2
  | other (n : Nat)
deriving DecidableEq, Repr

/-- The functions of `security.h`. `f2345` gives RES, CK, IK and AK. -/
structure SecurityFunctions where
  milenageF1 : (k op rand : Octets 16) → (sqn : Octets 6) → (amf : Octets 2) → Octets 8
  milenageF2345 : (k op rand : Octets 16) → Octets 8 × Octets 16 × Octets 16 × Octets 6
  generateKAsme : (ck ik : Octets 16) → (ak sqn : Octets 6) → (mcc mnc : Nat) → Octets 32
  generateKNas : (kAsme : Octets 32) → CipheringAlgorithmId → IntegrityAlgorithmId →
    Octets 32 × Octets 32
  eia1 : (key : Octets 16) → (count bearer direction : Nat) → (msg : List UInt8) → Octets 4
  eia2 : (key : Octets 16) → (count bearer direction : Nat) → (msg : List UInt8) → Octets 4
deriving Inhabited

/-- `auth_algo_t` -/
inductive AuthAlgo where
  | milenage
  | xor
deriving DecidableEq, Repr, Inhabited

/-- The user data and security variables of `usim`. -/
structure Usim where
  authAlgo : AuthAlgo
  amf : Octets 2
  op : Octets 16
  imei : Nat
  k : Octets 16
  ck : Octets 16
  ik : Octets 16
  ak : Octets 6
  mac : Octets 8
  autn : Octets 16
  kAsme : Octets 32
deriving Inhabited

namespace Usim

/-- `get_imei_vec`: the fifteen digits of the IMEI, the first one first. -/
def getImeiVec (s : Usim) : List UInt8 :=
  (List.range 15).map fun i => UInt8.ofNat (s.imei / 10 ^ (14 - i) % 10)

/-- The end of both authentication algorithms, from the AUTN that is expected on: AUTN is compared,
and `K_asme` is derived whether or not it matched. It gives `net_valid` and the response. -/
def conclude (F : SecurityFunctions) (s : Usim) (autnEnb : Octets 16) (mcc mnc : Nat)
    (ck ik : Octets 16) (ak sqn : Octets 6) (mac res : Octets 8) : Usim × Bool × Octets 8 :=
  let autn : Octets 16 := Fin.append (Fin.append (fun i : Fin 6 => sqn i ^^^ ak i) s.amf) mac
  ({ s with
      ck := ck, ik := ik, ak := ak, mac := mac, autn := autn
      kAsme := F.generateKAsme ck ik ak sqn mcc mnc },
    decide (∀ i, autn i = autnEnb i), res)

/-- The sequence number in AUTN. -/
def sqnOf (autnEnb : Octets 16) (ak : Octets 6) : Octets 6 :=
  fun i => autnEnb (i.castLE (by decide)) ^^^ ak i

/-- `gen_auth_res_milenage` -/
def genAuthResMilenage (F : SecurityFunctions) (s : Usim) (rand autnEnb : Octets 16)
    (mcc mnc : Nat) : Usim × Bool × Octets 8 :=
  let (res, ck, ik, ak) := F.milenageF2345 s.k s.op rand
  let sqn := sqnOf autnEnb ak
  s.conclude F autnEnb mcc mnc ck ik ak sqn (F.milenageF1 s.k s.op rand sqn s.amf) res

/-- `xdout` from octet `n` on: `xdout[(i + n) % 16]`. -/
def rotated (xdout : Octets 16) (n : Nat) : Octets 16 :=
  fun i => xdout ⟨(i + n) % 16, Nat.mod_lt _ (by decide)⟩

/-- The AK in `xdout`. -/
def xorAk (xdout : Octets 16) : Octets 6 := fun i => xdout ((i.addNat 3).castLE (by decide))

/-- The first eight octets of `xdout`. -/
def xorFirst (xdout : Octets 16) : Octets 8 := fun i => xdout (i.castLE (by decide))

/-- `gen_auth_res_xor` -/
def genAuthResXor (F : SecurityFunctions) (s : Usim) (rand autnEnb : Octets 16)
    (mcc mnc : Nat) : Usim × Bool × Octets 8 :=
  let xdout : Octets 16 := fun i => s.k i ^^^ rand i
  let ak := xorAk xdout
  let sqn := sqnOf autnEnb ak
  let cdout : Octets 8 := Fin.append sqn s.amf
  s.conclude F autnEnb mcc mnc (rotated xdout 1) (rotated xdout 2) ak sqn
    (fun i => xorFirst xdout i ^^^ cdout i) (xorFirst xdout)

/-- `generate_authentication_response` -/
def generateAuthenticationResponse (F : SecurityFunctions) (s : Usim) (rand autnEnb : Octets 16)
    (mcc mnc : Nat) : Usim × Bool × Octets 8 :=
  match s.authAlgo with
  | .xor => s.genAuthResXor F rand autnEnb mcc mnc
  | .milenage => s.genAuthResMilenage F rand autnEnb mcc mnc

/-- `generate_nas_keys`: `k_nas_enc` and `k_nas_int`. -/
def generateNasKeys (F : SecurityFunctions) (s : Usim) (cipherAlgo : CipheringAlgorithmId)
    (integAlgo : IntegrityAlgorithmId) : Octets 32 × Octets 32 :=
  F.generateKNas s.kAsme cipherAlgo integAlgo

end Usim

end SrsUE.Upper
