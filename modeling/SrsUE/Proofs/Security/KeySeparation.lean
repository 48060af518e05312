import Mathlib.Data.List.OfFn
import SrsUE.Security.KeyDerivation

/-!
# `SrsUE.Proofs.Security.KeySeparation`: no two keys are derived from the same string

Every key below CK and IK is the hash of a string under the key above it. The strings say what the
key is for, with which algorithm or for which count, so that a key that becomes known says nothing
about another one.

`kdfString_injective` is this for all the strings that the code makes, and `derivedKeys` says which
string each of the keys comes from.
-/

set_option autoImplicit false

namespace SrsUE.Security

open SrsUE.Rlc (Bytes)
open SrsUE.Upper (CipheringAlgorithmId IntegrityAlgorithmId Octets SecurityFunctions Usim)

/-- What a key is for. The MCC and the MNC are numbers of up to three digits, and SQN comes with AK
over it. -/
inductive KeyUse where
  | kAsme (mcc mnc : Fin 1000) (sqnAk : Octets 6)
  | kEnb (nasCount : BitVec 32)
  | kNasEnc (algId : UInt8)
  | kNasInt (algId : UInt8)
  | kRrcEnc (algId : UInt8)
  | kRrcInt (algId : UInt8)
  | kUpEnc (algId : UInt8)
  | kUpInt (algId : UInt8)

/-- The string that a key is derived from. -/
def kdfString : KeyUse → Bytes
  | .kAsme mcc mnc sqnAk => kAsmeString (fun _ => 0) sqnAk mcc mnc
  | .kEnb nasCount => kEnbString nasCount
  | .kNasEnc algId => algorithmString 0x01 algId
  | .kNasInt algId => algorithmString 0x02 algId
  | .kRrcEnc algId => algorithmString 0x03 algId
  | .kRrcInt algId => algorithmString 0x04 algId
  | .kUpEnc algId => algorithmString 0x05 algId
  | .kUpInt algId => algorithmString 0x06 algId

/-! ### Digits -/

/-- Two digits in a byte. -/
theorem toNat_digits {a b : Nat} (ha : a < 16) (hb : b < 16) :
    (UInt8.ofNat (a <<< 4 ||| b)).toNat = 16 * a + b := by
  have hor : a <<< 4 ||| b = 16 * a + b := by
    rw [← Nat.shiftLeft_add_eq_or_of_lt hb a, Nat.shiftLeft_eq, Nat.mul_comm]
  rw [hor, UInt8.toNat_ofNat', Nat.mod_eq_of_lt (by omega)]

/-- They are known from the byte. -/
theorem digits_inj {a b c d : Nat} (ha : a < 16) (hb : b < 16) (hc : c < 16) (hd : d < 16)
    (h : UInt8.ofNat (a <<< 4 ||| b) = UInt8.ofNat (c <<< 4 ||| d)) : a = c ∧ b = d := by
  have hnat := congrArg UInt8.toNat h
  rw [toNat_digits ha hb, toNat_digits hc hd] at hnat
  omega

/-- The octets tell a number of two digits from one of three, and give back the digits. -/
theorem plmnOctets_injective {mcc mnc mcc' mnc' : Nat} (hmcc : mcc < 1000) (hmnc : mnc < 1000)
    (hmcc' : mcc' < 1000)
    (hmnc' : mnc' < 1000) (h : plmnOctets mcc mnc = plmnOctets mcc' mnc') :
    mcc = mcc' ∧ mnc = mnc' := by
  rw [plmnOctets, plmnOctets, List.cons.injEq] at h
  obtain ⟨hfirst, hrest⟩ := h
  obtain ⟨htens, hhundreds⟩ := digits_inj (by omega) (by omega) (by omega) (by omega) hfirst
  have hfill : ∀ n, UInt8.ofNat (0xF0 ||| n) = UInt8.ofNat (15 <<< 4 ||| n) := fun _ => rfl
  rw [hfill, hfill] at hrest
  split at hrest <;> split at hrest <;> simp only [List.cons.injEq, and_true] at hrest
  all_goals
    obtain ⟨h2, h3⟩ := hrest
    obtain ⟨h2a, h2b⟩ := digits_inj (by omega) (by omega) (by omega) (by omega) h2
    obtain ⟨h3a, h3b⟩ := digits_inj (by omega) (by omega) (by omega) (by omega) h3
    omega

/-! ### The strings -/

/-- The code of a network has three bytes. -/
theorem length_plmnOctets (mcc mnc : Nat) : (plmnOctets mcc mnc).length = 3 := by
  rw [plmnOctets]
  split <;> rfl

/-- The number back from its octets. -/
theorem ofOctets_count (c : BitVec 32) :
    ((c >>> 24).setWidth 8 ++ (c >>> 16).setWidth 8 ++ (c >>> 8).setWidth 8 ++
    c.setWidth 8 : BitVec 32) = c := by
  refine BitVec.eq_of_getLsbD_eq fun i hi => ?_
  simp only [BitVec.getLsbD_append, BitVec.getLsbD_setWidth, BitVec.getLsbD_ushiftRight]
  split
  · simp [show i < 8 by omega]
  · split
    · simp [show i - 8 < 8 by omega, show 8 + (i - 8) = i by omega]
    · split
      · simp [show i - 8 - 8 < 8 by omega, show 16 + (i - 8 - 8) = i by omega]
      · simp [show i - 8 - 8 - 8 < 8 by omega, show 24 + (i - 8 - 8 - 8) = i by omega]

/-- Different counts give different inputs. -/
theorem kEnbString_injective : Function.Injective kEnbString := by
  intro c c' h
  simp only [kEnbString, List.cons.injEq, UInt8.ofBitVec.injEq, true_and, and_true] at h
  obtain ⟨h3, h2, h1, h0⟩ := h
  rw [← ofOctets_count c, h3, h2, h1, h0, ofOctets_count]

/-- So do different networks and sequence numbers. -/
theorem kAsmeString_injective {mcc mnc mcc' mnc' : Fin 1000} {sqnAk sqnAk' : Octets 6}
    (h : kdfString (.kAsme mcc mnc sqnAk) = kdfString (.kAsme mcc' mnc' sqnAk')) :
    mcc = mcc' ∧ mnc = mnc' ∧ sqnAk = sqnAk' := by
  simp only [kdfString, kAsmeString, List.cons_append, List.cons.injEq, true_and,
    List.append_assoc] at h
  obtain ⟨hplmn, hrest⟩ := List.append_inj h (by rw [length_plmnOctets, length_plmnOctets])
  obtain ⟨hmcc, hmnc⟩ := plmnOctets_injective mcc.isLt mnc.isLt mcc'.isLt mnc'.isLt hplmn
  simp only [List.nil_append, List.cons.injEq, true_and] at hrest
  obtain ⟨hsqn, -⟩ := List.append_inj hrest (by rw [List.length_ofFn, List.length_ofFn])
  refine ⟨Fin.ext hmcc, Fin.ext hmnc, ?_⟩
  funext i
  have hoctet := congrFun (List.ofFn_injective hsqn) i
  rwa [UInt8.xor_zero, UInt8.xor_zero] at hoctet

/-- Strings for different uses are different. -/
theorem kdfString_injective : Function.Injective kdfString := by
  intro u u' h
  cases u <;> cases u'
  case kAsme.kAsme mcc mnc sqnAk mcc' mnc' sqnAk' =>
    obtain ⟨rfl, rfl, rfl⟩ := kAsmeString_injective h
    rfl
  case kEnb.kEnb c c' => rw [kEnbString_injective h]
  all_goals simp_all [kdfString, kAsmeString, kEnbString, algorithmString]

/-! ### The keys -/

/-- The keys of NAS and of the access stratum, each from its own string. -/
theorem derivedKeys (sha256 : Bytes → Bytes → Octets 32) (F : SecurityFunctions) (usim : Usim)
    (countUl : BitVec 32)
    (enc enc' : CipheringAlgorithmId) (int int' : IntegrityAlgorithmId) :
    let nas := usim.generateNasKeys (securityFunctions sha256 F) enc int
    let as := generateAsKeys sha256 usim countUl enc' int'
    let below (key : Octets 32) (use : KeyUse) : Octets 32 := sha256 (List.ofFn key) (kdfString use)
    Function.Injective kdfString ∧
      nas = (below usim.kAsme (.kNasEnc (encAlgId enc)),
        below usim.kAsme (.kNasInt (intAlgId int))) ∧
      as = { kEnb := below usim.kAsme (.kEnb countUl)
             kRrcEnc := below as.kEnb (.kRrcEnc (encAlgId enc'))
             kRrcInt := below as.kEnb (.kRrcInt (intAlgId int'))
             kUpEnc := below as.kEnb (.kUpEnc (encAlgId enc'))
             kUpInt := below as.kEnb (.kUpInt (intAlgId int')) } :=
  ⟨kdfString_injective, rfl, rfl⟩

end SrsUE.Security
