import SrsUE.Rlc.Common
import SrsUE.Security.Milenage

/-!
# `SrsUE.Security.KeyDerivation`: the keys and what they are derived from

The functions of `liblte_security.cc` that derive a key from another one, which `security.cc`
forwards to, and `usim::generate_as_keys`, which calls them in turn. The hash function with a key is
in another library and is here any function `sha256` from a key and a string.
-/

set_option autoImplicit false

namespace SrsUE.Security

open SrsUE.Rlc (Bytes)
open SrsUE.Upper (CipheringAlgorithmId IntegrityAlgorithmId Octets SecurityFunctions Usim)

/-! ### The strings -/

/-- The three octets that `liblte_security_generate_k_asme` makes from the MCC and the MNC. -/
def plmnOctets (mcc mnc : Nat) : Bytes :=
  UInt8.ofNat ((mcc / 10 % 10) <<< 4 ||| mcc / 100 % 10) ::
    if mnc < 100 then
      [UInt8.ofNat (0xF0 ||| mcc % 10), UInt8.ofNat ((mnc % 10) <<< 4 ||| mnc / 10 % 10)]
    else
      [UInt8.ofNat ((mnc % 10) <<< 4 ||| mcc % 10),
        UInt8.ofNat ((mnc / 10 % 10) <<< 4 ||| mnc / 100 % 10)]

/-- `s` of `liblte_security_generate_k_asme` -/
def kAsmeString (ak sqn : Octets 6) (mcc mnc : Nat) : Bytes :=
  0x10 :: plmnOctets mcc mnc ++ [0x00, 0x03] ++ (List.ofFn fun i => sqn i ^^^ ak i) ++ [0x00, 0x06]

/-- `s` of `liblte_security_generate_k_enb` -/
def kEnbString (nasCount : BitVec 32) : Bytes :=
  [0x11, .ofBitVec ((nasCount >>> 24).setWidth 8), .ofBitVec ((nasCount >>> 16).setWidth 8),
    .ofBitVec ((nasCount >>> 8).setWidth 8), .ofBitVec (nasCount.setWidth 8), 0x00, 0x04]

/-- `s` of the functions for NAS, RRC and the user plane, which differ in `P0`. -/
def algorithmString (p0 algId : UInt8) : Bytes := [0x15, p0, 0x00, 0x01, algId, 0x00, 0x01]

/-- The identifier of the algorithm, as an octet. -/
def encAlgId : CipheringAlgorithmId → UInt8
  | .eea0 => 0
  | .eea1 => 1
  | .eea2 => 2
  | .other n => UInt8.ofNat n

def intAlgId : IntegrityAlgorithmId → UInt8
  | .eia0 => 0
  | .eia1 => 1
  | .eia2 => 2
  | .other n => UInt8.ofNat n

/-! ### The derivations -/

section Derivations

variable (sha256 : (key input : Bytes) → Octets 32)

/-- `liblte_security_generate_k_asme` -/
def liblteSecurityGenerateKAsme (ck ik : Octets 16) (ak sqn : Octets 6) (mcc mnc : Nat) :
    Octets 32 :=
  sha256 (List.ofFn ck ++ List.ofFn ik) (kAsmeString ak sqn mcc mnc)

/-- `liblte_security_generate_k_enb` -/
def liblteSecurityGenerateKEnb (kAsme : Octets 32) (nasCount : BitVec 32) : Octets 32 :=
  sha256 (List.ofFn kAsme) (kEnbString nasCount)

/-- `liblte_security_generate_k_nas`: the keys for encryption and for integrity. -/
def liblteSecurityGenerateKNas (kAsme : Octets 32) (enc : CipheringAlgorithmId)
    (int : IntegrityAlgorithmId) :
    Octets 32 × Octets 32 :=
  (sha256 (List.ofFn kAsme) (algorithmString 0x01 (encAlgId enc)),
    sha256 (List.ofFn kAsme) (algorithmString 0x02 (intAlgId int)))

/-- `liblte_security_generate_k_rrc` -/
def liblteSecurityGenerateKRrc (kEnb : Octets 32) (enc : CipheringAlgorithmId)
    (int : IntegrityAlgorithmId) :
    Octets 32 × Octets 32 :=
  (sha256 (List.ofFn kEnb) (algorithmString 0x03 (encAlgId enc)),
    sha256 (List.ofFn kEnb) (algorithmString 0x04 (intAlgId int)))

/-- `liblte_security_generate_k_up` -/
def liblteSecurityGenerateKUp (kEnb : Octets 32) (enc : CipheringAlgorithmId)
    (int : IntegrityAlgorithmId) :
    Octets 32 × Octets 32 :=
  (sha256 (List.ofFn kEnb) (algorithmString 0x05 (encAlgId enc)),
    sha256 (List.ofFn kEnb) (algorithmString 0x06 (intAlgId int)))

/-- The keys of the access stratum. -/
structure AsKeys where
  kEnb : Octets 32
  kRrcEnc : Octets 32
  kRrcInt : Octets 32
  kUpEnc : Octets 32
  kUpInt : Octets 32

/-- `usim::generate_as_keys` -/
def generateAsKeys (usim : Usim) (countUl : BitVec 32) (cipherAlgo : CipheringAlgorithmId)
    (integAlgo : IntegrityAlgorithmId) : AsKeys :=
  let kEnb := liblteSecurityGenerateKEnb sha256 usim.kAsme countUl
  let kRrc := liblteSecurityGenerateKRrc sha256 kEnb cipherAlgo integAlgo
  let kUp := liblteSecurityGenerateKUp sha256 kEnb cipherAlgo integAlgo
  { kEnb := kEnb, kRrcEnc := kRrc.1, kRrcInt := kRrc.2, kUpEnc := kUp.1, kUpInt := kUp.2 }

/-- The functions of `security.h` for authentication and for keys. The integrity algorithms are
those of `F`. -/
def securityFunctions (F : SecurityFunctions) : SecurityFunctions :=
  { F with
    milenageF1 := liblteSecurityMilenageF1
    milenageF2345 := liblteSecurityMilenageF2345
    generateKAsme := liblteSecurityGenerateKAsme sha256
    generateKNas := liblteSecurityGenerateKNas sha256 }

end Derivations

end SrsUE.Security
