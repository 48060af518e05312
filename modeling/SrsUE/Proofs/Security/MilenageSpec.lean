import SrsUE.Lib.Milenage
import SrsUE.Proofs.Security.RijndaelAes
import SrsUE.Security.Milenage

/-!
# `SrsUE.Proofs.Security.MilenageSpec`: the authentication functions are Milenage over AES

The functions move octets where Milenage rotates a word, and put a constant over the last octet.
`milenage_spec` says that what they return, as words, are the functions of Milenage with AES under
the subscriber's key.
-/

set_option autoImplicit false

namespace SrsUE.Security

open SrsUE.Lib
open SrsUE.Upper (Octets)

/-! ### Octets that are moved -/

/-- Moved octets are a rotated word. -/
theorem ofOctets_moved (b : Octets 16) (shift : Fin 16) {r : Nat} (hr : r < 128)
    (h : (8 * shift.val + r) % 128 = 0) :
    ofOctets (fun j => b (j - shift)) = (ofOctets b).rotateLeft r := by
  refine BitVec.eq_of_getMsbD_eq fun k hk => ?_
  have hplace : (r + k) % 128 < 128 := Nat.mod_lt _ (by decide)
  rw [BitVec.getMsbD_rotateLeft_of_lt hr, decide_eq_true hk, Bool.true_and, getMsbD_ofOctets _ hk,
    getMsbD_ofOctets _ hplace]
  have hshift := shift.isLt
  have hoctet : (⟨k / 8, by omega⟩ - shift : Fin 16) = ⟨(r + k) % 128 / 8, by omega⟩ := by
    refine Fin.ext ?_
    rw [Fin.sub_def]
    show (16 - shift.val + k / 8) % 16 = (r + k) % 128 / 8
    omega
  have hbit : k % 8 = (r + k) % 128 % 8 := by omega
  rw [hoctet, ← hbit]

/-- A sum of octets that is moved by octets is a rotation of the word. -/
theorem ofOctets_moved_xor (a b : Octets 16) (shift : Fin 16) {r : Nat} (hr : r < 128)
    (h : (8 * shift.val + r) % 128 = 0) :
    ofOctets (fun j => a (j - shift) ^^^ b (j - shift)) = (ofOctets a ^^^ ofOctets b).rotateLeft
      r := by
  rw [← ofOctets_xor]
  exact ofOctets_moved (fun j => a j ^^^ b j) shift hr h

/-- A constant over the last octet. -/
theorem ofOctets_last (constant : UInt8) :
    ofOctets (fun j => if j = 15 then constant else 0) = constant.toBitVec.setWidth 128 := by
  refine BitVec.eq_of_getMsbD_eq fun k hk => ?_
  rw [getMsbD_ofOctets _ hk, BitVec.getMsbD_setWidth]
  by_cases hlast : 120 ≤ k
  · have hoctet : (⟨k / 8, by omega⟩ : Fin 16) = 15 := Fin.ext (by show k / 8 = 15; omega)
    have hbit : k % 8 = k + 8 - 128 := by omega
    rw [if_pos hoctet, decide_eq_true (by omega : 128 - 8 ≤ k), Bool.true_and, hbit]
  · have hoctet : (⟨k / 8, by omega⟩ : Fin 16) ≠ 15 := fun h => by
      have hval : k / 8 = 15 := congrArg Fin.val h
      omega
    rw [if_neg hoctet, decide_eq_false (by omega : ¬128 - 8 ≤ k), Bool.false_and]
    exact BitVec.getMsbD_zero

/-- The first octets. -/
theorem bigEndian_first {n : Nat} (hn : n ≤ 16) (b : Octets 16) :
    bigEndian (fun i : Fin n => b (i.castLE hn)) = (ofOctets b).extractLsb' (128 - 8 * n)
      (8 * n) := by
  refine BitVec.eq_of_getMsbD_eq fun k hk => ?_
  have hplace : 128 - (128 - 8 * n + 8 * n - k) = k := by omega
  rw [getMsbD_bigEndian _ hk, BitVec.getMsbD_extractLsb', decide_eq_true hk,
    decide_eq_true (by omega : 128 - 8 * n + 8 * n - k ≤ 128), Bool.true_and, Bool.true_and, hplace,
    getMsbD_ofOctets _ (by omega)]
  rfl

/-- The last eight octets. -/
theorem bigEndian_last (b : Octets 16) :
    bigEndian (fun i : Fin 8 => b (i.natAdd 8)) = (ofOctets b).extractLsb' 0 64 := by
  refine BitVec.eq_of_getMsbD_eq fun k hk => ?_
  have hk64 : k < 64 := hk
  have hplace : 128 - (0 + 64 - k) = 64 + k := by omega
  rw [getMsbD_bigEndian _ hk, BitVec.getMsbD_extractLsb', decide_eq_true hk64,
    decide_eq_true (by omega : 0 + 64 - k ≤ 128), Bool.true_and, Bool.true_and, hplace,
    getMsbD_ofOctets _ (by omega)]
  have hoctet : (⟨(64 + k) / 8, by omega⟩ : Fin 16) = Fin.natAdd 8 (⟨k / 8, by omega⟩ : Fin 8) :=
    Fin.ext (by show (64 + k) / 8 = 8 + k / 8; omega)
  have hbit : (64 + k) % 8 = k % 8 := by omega
  rw [hoctet, hbit]

/-- Arrays one behind the other. -/
theorem bigEndian_append {m n : Nat} (a : Octets m) (b : Octets n) {v : BitVec (8 * m + 8 * n)}
    (hv : v = bigEndian a ++ bigEndian b) :
    ∀ k < 8 * (m + n), (bigEndian (Fin.append a b)).getMsbD k = v.getMsbD k := by
  intro k hk
  subst hv
  rw [getMsbD_bigEndian _ hk, BitVec.getMsbD_append]
  by_cases hfirst : k < 8 * m
  · have hplace : (⟨k / 8, by omega⟩ : Fin (m + n)) = Fin.castAdd n ⟨k / 8, by omega⟩ := rfl
    rw [if_neg (by omega), hplace, Fin.append_left, getMsbD_bigEndian _ hfirst]
  · have hplace : (⟨k / 8, by omega⟩ : Fin (m + n)) = Fin.natAdd m ⟨(k - 8 * m) / 8, by omega⟩ :=
      Fin.ext (by show k / 8 = m + (k - 8 * m) / 8; omega)
    have hbit : (k - 8 * m) % 8 = k % 8 := by omega
    rw [if_pos (by omega), hplace, Fin.append_right, getMsbD_bigEndian _ (by omega), hbit]

/-- The input of the first function. -/
theorem ofOctets_milenageIn1 (sqn : Octets 6) (amf : Octets 2) :
    ofOctets (milenageIn1 sqn amf) = Milenage.in1 (bigEndian sqn) (bigEndian amf) := by
  have hfirst : bigEndian (Fin.append sqn amf) = bigEndian sqn ++ bigEndian amf :=
    BitVec.eq_of_getMsbD_eq (bigEndian_append sqn amf rfl)
  have hsecond : bigEndian (Fin.append (Fin.append sqn amf) sqn) = bigEndian sqn ++ bigEndian amf ++
      bigEndian sqn :=
    BitVec.eq_of_getMsbD_eq (bigEndian_append (Fin.append sqn amf) sqn (by rw [hfirst]))
  exact BitVec.eq_of_getMsbD_eq (bigEndian_append (Fin.append (Fin.append sqn amf) sqn) amf
    (by rw [hsecond]; rfl))

/-! ### The functions -/

section Functions

variable (k op rand : Octets 16)

/-- AES under the subscriber's key. -/
noncomputable def subscriberCipher : BitVec 128 → BitVec 128 := Aes.cipher (ofOctets k)

/-- The cipher of the code is AES under the key. -/
theorem ofOctets_encrypt (input : Octets 16) :
    ofOctets (rijndaelEncrypt input (rijndaelKeySchedule k))
      = subscriberCipher k (ofOctets input) :=
  ofOctets_rijndaelEncrypt k input

/-- The operator constant. -/
theorem ofOctets_computeOPc :
    ofOctets (computeOPc (rijndaelKeySchedule k) op)
      = Milenage.opC (subscriberCipher k) (ofOctets op) := by
  have hxor := ofOctets_xor (rijndaelEncrypt op (rijndaelKeySchedule k)) op
  rw [ofOctets_encrypt] at hxor
  exact hxor

/-- The intermediate value. -/
theorem ofOctets_milenageTemp :
    ofOctets (milenageTemp (rijndaelKeySchedule k) (computeOPc (rijndaelKeySchedule k) op) rand)
      = Milenage.temp (subscriberCipher k) (ofOctets op) (ofOctets rand) := by
  rw [milenageTemp, ofOctets_encrypt, ofOctets_xor, ofOctets_computeOPc]
  rfl

/-- The output of the first function, before it is cut. -/
theorem ofOctets_milenageOut1 (sqn : Octets 6) (amf : Octets 2) :
    ofOctets (milenageOut1 k op rand sqn amf)
      = Milenage.out1 (subscriberCipher k) (ofOctets op) (ofOctets rand) (bigEndian sqn)
        (bigEndian amf) := by
  have hmoved :=
    ofOctets_moved_xor (milenageIn1 sqn amf) (computeOPc (rijndaelKeySchedule k) op) 8 (r := 64)
    (by decide) (by decide)
  rw [milenageOut1, ofOctets_xor, ofOctets_encrypt, ofOctets_xor, hmoved, ofOctets_milenageIn1,
    ofOctets_milenageTemp, ofOctets_computeOPc, BitVec.xor_comm (BitVec.rotateLeft _ _)]
  rfl

/-- The outputs of the other functions: a rotation, a constant and the cipher. -/
theorem ofOctets_milenageOut (shift : Fin 16) (constant : UInt8) {r : Nat} (hr : r < 128)
    (h : (8 * shift.val + r) % 128 = 0) :
    ofOctets (milenageOut (rijndaelKeySchedule k) (computeOPc (rijndaelKeySchedule k) op)
        (milenageTemp (rijndaelKeySchedule k) (computeOPc (rijndaelKeySchedule k) op) rand) shift
        constant)
      = Milenage.out (subscriberCipher k) (ofOctets op) (ofOctets rand) r
        (constant.toBitVec.setWidth 128) := by
  rw [milenageOut, ofOctets_xor, ofOctets_encrypt, ofOctets_xor, ofOctets_moved_xor _ _ shift hr h,
    ofOctets_last, ofOctets_milenageTemp, ofOctets_computeOPc]
  rfl

/-- `f1` is the first half of its output. -/
theorem bigEndian_f1 (sqn : Octets 6) (amf : Octets 2) :
    bigEndian (liblteSecurityMilenageF1 k op rand sqn amf)
      = Milenage.f1 (subscriberCipher k) (ofOctets op) (ofOctets rand) (bigEndian sqn)
        (bigEndian amf) := by
  rw [Milenage.f1, ← ofOctets_milenageOut1]
  exact bigEndian_first (by decide) _

/-- `f1*` is the second half. -/
theorem bigEndian_f1Star (sqn : Octets 6) (amf : Octets 2) :
    bigEndian (liblteSecurityMilenageF1Star k op rand sqn amf)
      = Milenage.f1Star (subscriberCipher k) (ofOctets op) (ofOctets rand) (bigEndian sqn)
        (bigEndian amf) := by
  rw [Milenage.f1Star, ← ofOctets_milenageOut1]
  exact bigEndian_last _

/-- The response is `f2`. -/
theorem bigEndian_res :
    bigEndian (liblteSecurityMilenageF2345 k op rand).1
      = Milenage.f2 (subscriberCipher k) (ofOctets op) (ofOctets rand) := by
  have hout := ofOctets_milenageOut k op rand 0 1 (r := 0) (by decide) (by decide)
  rw [show (1 : UInt8).toBitVec.setWidth 128 = 1#128 from rfl] at hout
  exact (bigEndian_last _).trans (by rw [hout]; rfl)

/-- The confidentiality key is `f3`. -/
theorem ofOctets_ck :
    ofOctets (liblteSecurityMilenageF2345 k op rand).2.1
      = Milenage.f3 (subscriberCipher k) (ofOctets op) (ofOctets rand) :=
  ofOctets_milenageOut k op rand 12 2 (r := 32) (by decide) (by decide)

/-- The integrity key is `f4`. -/
theorem ofOctets_ik :
    ofOctets (liblteSecurityMilenageF2345 k op rand).2.2.1
      = Milenage.f4 (subscriberCipher k) (ofOctets op) (ofOctets rand) :=
  ofOctets_milenageOut k op rand 8 4 (r := 64) (by decide) (by decide)

/-- The anonymity key is `f5`. -/
theorem bigEndian_ak :
    bigEndian (liblteSecurityMilenageF2345 k op rand).2.2.2
      = Milenage.f5 (subscriberCipher k) (ofOctets op) (ofOctets rand) := by
  have hout := ofOctets_milenageOut k op rand 0 1 (r := 0) (by decide) (by decide)
  rw [show (1 : UInt8).toBitVec.setWidth 128 = 1#128 from rfl] at hout
  exact (bigEndian_first (n := 6) (by decide) _).trans (by rw [hout]; rfl)

/-- The anonymity key of a resynchronization is `f5*`. -/
theorem bigEndian_f5Star :
    bigEndian (liblteSecurityMilenageF5Star k op rand)
      = Milenage.f5Star (subscriberCipher k) (ofOctets op) (ofOctets rand) := by
  have hout := ofOctets_milenageOut k op rand 4 8 (r := 96) (by decide) (by decide)
  exact (bigEndian_first (n := 6) (by decide) _).trans (by rw [hout]; rfl)

/-- **The authentication functions are Milenage.** For every key, operator field, challenge,
sequence number and management field. -/
theorem milenage_spec (sqn : Octets 6) (amf : Octets 2) :
    let e := Aes.cipher (ofOctets k)
    let (res, ck, ik, ak) := liblteSecurityMilenageF2345 k op rand
    bigEndian (liblteSecurityMilenageF1 k op rand sqn amf)
        = Milenage.f1 e (ofOctets op) (ofOctets rand) (bigEndian sqn) (bigEndian amf) ∧
      bigEndian (liblteSecurityMilenageF1Star k op rand sqn amf)
        = Milenage.f1Star e (ofOctets op) (ofOctets rand) (bigEndian sqn) (bigEndian amf) ∧
      bigEndian res = Milenage.f2 e (ofOctets op) (ofOctets rand) ∧
      ofOctets ck = Milenage.f3 e (ofOctets op) (ofOctets rand) ∧
      ofOctets ik = Milenage.f4 e (ofOctets op) (ofOctets rand) ∧
      bigEndian ak = Milenage.f5 e (ofOctets op) (ofOctets rand) ∧
      bigEndian (liblteSecurityMilenageF5Star k op rand)
        = Milenage.f5Star e (ofOctets op) (ofOctets rand) :=
  ⟨bigEndian_f1 k op rand sqn amf, bigEndian_f1Star k op rand sqn amf, bigEndian_res k op rand,
    ofOctets_ck k op rand,
    ofOctets_ik k op rand, bigEndian_ak k op rand, bigEndian_f5Star k op rand⟩

end Functions

end SrsUE.Security
