import SrsUE.Proofs.Security.KeySeparation
import SrsUE.Proofs.Security.MilenageSpec
import SrsUE.Proofs.Upper.SecurityContext
import SrsUE.Rrc.Messages
import SrsUE.Security.KeyDerivation

/-!
# `SrsUE.Proofs.Security.Authentication`: which networks NAS answers

An authentication request has RAND and AUTN, and the network makes AUTN from a sequence number and
from what it knows of the subscriber. `Subscriber` is this side: all its functions are those of
Milenage with AES.

`authentication_spec` says that NAS answers the requests with an AUTN that the network can make, at
any time and for any sequence number, with the response that the network expects. The key that it
stores is the one of the network unless the network has an MNC of three digits that begins with
zero, which the code takes for one of two digits.
-/

set_option autoImplicit false

namespace SrsUE.Security

open SrsUE.Lib SrsUE.Upper
open SrsUE.Rlc (Bytes)
open SrsUE.Rrc (unpackDigits unpackPlmnIdentity)

/-! ### The network -/

/-- What the network knows of a subscriber. -/
structure Subscriber where
  k : BitVec 128
  op : BitVec 128
  amf : BitVec 16

namespace Subscriber

variable (sub : Subscriber) (rand : BitVec 128)

noncomputable def ak : BitVec 48 := Milenage.f5 (Aes.cipher sub.k) sub.op rand

noncomputable def res : BitVec 64 := Milenage.f2 (Aes.cipher sub.k) sub.op rand

noncomputable def ck : BitVec 128 := Milenage.f3 (Aes.cipher sub.k) sub.op rand

noncomputable def ik : BitVec 128 := Milenage.f4 (Aes.cipher sub.k) sub.op rand

/-- AUTN for a sequence number. -/
noncomputable def autn (sqn : BitVec 48) : BitVec 128 :=
  (sqn ^^^ sub.ak rand) ++ sub.amf ++ Milenage.f1 (Aes.cipher sub.k) sub.op rand sqn sub.amf

end Subscriber

/-- The identity of a network: the digits of its MCC, and two or three of its MNC. -/
structure Plmn where
  (mcc1 mcc2 mcc3 mnc1 mnc2 : Fin 10)
  mnc3 : Option (Fin 10)

namespace Plmn

/-- The identity in the system information. -/
def broadcast (p : Plmn) : List Bool :=
  putFlag true ++ putNat 4 p.mcc1 ++ putNat 4 p.mcc2 ++ putNat 4 p.mcc3 ++ putFlag p.mnc3.isSome
    ++ putNat 4 p.mnc1 ++ putNat 4 p.mnc2 ++ p.mnc3.elim [] fun d => putNat 4 d

/-- The identity in the string for `K_asme`. -/
def octets (p : Plmn) : Bytes :=
  [UInt8.ofNat (p.mcc2.val <<< 4 ||| p.mcc1),
    UInt8.ofNat ((p.mnc3.elim 15 Fin.val) <<< 4 ||| p.mcc3),
    UInt8.ofNat (p.mnc2.val <<< 4 ||| p.mnc1)]

/-- The string that the network derives `K_asme` from. SQN with AK over it is the first field of
AUTN. -/
def kAsmeString (p : Plmn) (autn : Octets 16) : Bytes :=
  0x10 :: p.octets ++ [0x00, 0x03] ++ (List.ofFn fun i : Fin 6 => autn (i.castAdd 10)) ++
    [0x00, 0x06]

end Plmn

/-! ### The fields of AUTN -/

/-- A concatenation determines its parts. -/
theorem append_eq_append_iff {m n : Nat} {a a' : BitVec m} {b b' : BitVec n} :
    a ++ b = a' ++ b' ↔ a = a' ∧ b = b' := by
  constructor
  · intro h
    constructor
    · refine BitVec.eq_of_getMsbD_eq fun i hi => ?_
      have hbit := congrArg (fun v : BitVec (m + n) => v.getMsbD i) h
      simpa only [BitVec.getMsbD_append, if_neg (Nat.not_le_of_lt hi)] using hbit
    · refine BitVec.eq_of_getMsbD_eq fun i _ => ?_
      have hbit := congrArg (fun v : BitVec (m + n) => v.getMsbD (m + i)) h
      simpa only [BitVec.getMsbD_append, if_pos (Nat.le_add_right m i),
        Nat.add_sub_cancel_left] using hbit
  · rintro ⟨rfl, rfl⟩
    rfl

/-- Different octets are different words. -/
theorem bigEndian_injective {n : Nat} : Function.Injective (bigEndian (n := n)) := by
  intro a b h
  funext i
  refine UInt8.toBitVec_inj.mp (BitVec.eq_of_getMsbD_eq fun k hk => ?_)
  have hi := i.isLt
  have hbit := congrArg (fun v : BitVec (8 * n) => v.getMsbD (8 * i + k)) h
  have hdiv : (8 * i.val + k) / 8 = i := by omega
  have hmod : (8 * i.val + k) % 8 = k := by omega
  simpa only [getMsbD_bigEndian _ (by omega : 8 * i.val + k < 8 * n), hdiv, hmod] using hbit

/-- SQN with AK over it. -/
def sqnField (autn : Octets 16) : BitVec 48 := bigEndian fun i : Fin 6 => autn (i.castAdd 10)

def amfField (autn : Octets 16) : BitVec 16 :=
  bigEndian fun i : Fin 2 => autn ((i.natAdd 6).castAdd 8)

def macField (autn : Octets 16) : BitVec 64 := bigEndian fun i : Fin 8 => autn (i.natAdd 8)

/-- AUTN field by field. -/
theorem ofOctets_eq_fields (autn : Octets 16) : ofOctets autn = sqnField autn ++ amfField autn ++
    macField autn := by
  have hfields : autn = Fin.append (Fin.append (fun i : Fin 6 => autn (i.castAdd 10))
      fun i : Fin 2 => autn ((i.natAdd 6).castAdd 8)) fun i : Fin 8 => autn (i.natAdd 8) := by
    funext i
    refine Fin.addCases (m := 8) (n := 8) (fun i => ?_) (fun i => ?_) i
    · rw [Fin.append_left]
      refine Fin.addCases (m := 6) (n := 2) (fun i => ?_) (fun i => ?_) i
      · rw [Fin.append_left]
        rfl
      · rw [Fin.append_right]
    · rw [Fin.append_right]
  have hfirst : bigEndian (Fin.append (fun i : Fin 6 => autn (i.castAdd 10))
      fun i : Fin 2 => autn ((i.natAdd 6).castAdd 8)) = sqnField autn ++ amfField autn :=
    BitVec.eq_of_getMsbD_eq (bigEndian_append _ _ rfl)
  refine BitVec.eq_of_getMsbD_eq fun k hk => ?_
  have hbits := bigEndian_append _ (fun i : Fin 8 => autn (i.natAdd 8)) (by rw [hfirst]) k hk
  exact (congrArg (fun o => (ofOctets o).getMsbD k) hfields).trans hbits

/-! ### The answer -/

/-- The network's view of what is configured in a USIM. -/
def subscriberOf (usim : Usim) : Subscriber :=
  ⟨ofOctets usim.k, ofOctets usim.op, bigEndian usim.amf⟩

section Answer

variable (sha256 : Bytes → Bytes → Octets 32) (F : SecurityFunctions)

/-- The vector of a USIM with Milenage. -/
theorem authVector_eq {usim : Usim} (halgo : usim.authAlgo = .milenage) (rand autn : Octets 16) :
    usim.authVector (securityFunctions sha256 F) rand autn =
      let v := liblteSecurityMilenageF2345 usim.k usim.op rand
      { ck := v.2.1, ik := v.2.2.1, ak := v.2.2.2
        mac :=
      liblteSecurityMilenageF1 usim.k usim.op rand (Usim.sqnOf autn v.2.2.2) usim.amf } := by
  rw [Usim.authVector, halgo]
  rfl

/-- The sequence number that the USIM takes from AUTN. -/
theorem bigEndian_sqnOf (usim : Usim) (rand autn : Octets 16) :
    bigEndian (Usim.sqnOf autn (liblteSecurityMilenageF2345 usim.k usim.op rand).2.2.2)
      = sqnField autn ^^^ (subscriberOf usim).ak (ofOctets rand) := by
  have hxor := bigEndian_xor (fun i : Fin 6 => autn (i.castAdd 10))
    (liblteSecurityMilenageF2345 usim.k usim.op rand).2.2.2
  rw [bigEndian_ak] at hxor
  exact hxor

/-- The USIM compares the AMF and the MAC. -/
theorem genuine_iff_fields {usim : Usim} (halgo : usim.authAlgo = .milenage)
    (rand autn : Octets 16) :
    usim.Genuine (securityFunctions sha256 F) rand autn ↔
      amfField autn = (subscriberOf usim).amf ∧
        macField autn = Milenage.f1 (Aes.cipher (subscriberOf usim).k) (subscriberOf usim).op
          (ofOctets rand)
          (sqnField autn ^^^ (subscriberOf usim).ak (ofOctets rand)) (subscriberOf usim).amf := by
  have hmac := bigEndian_f1 usim.k usim.op rand
    (Usim.sqnOf autn (liblteSecurityMilenageF2345 usim.k usim.op rand).2.2.2) usim.amf
  rw [bigEndian_sqnOf] at hmac
  rw [Usim.Genuine, authVector_eq sha256 F halgo, ← funext_iff, ← funext_iff]
  exact and_congr bigEndian_injective.eq_iff.symm (bigEndian_injective.eq_iff.symm.trans
    (by rw [hmac]; rfl))

/-- AUTN is genuine exactly if the network makes it for some sequence number. -/
theorem genuine_iff {usim : Usim} (halgo : usim.authAlgo = .milenage) (rand autn : Octets 16) :
    usim.Genuine (securityFunctions sha256 F) rand autn
      ↔ ∃ sqn, ofOctets autn = (subscriberOf usim).autn (ofOctets rand) sqn := by
  rw [genuine_iff_fields sha256 F halgo, ofOctets_eq_fields autn]
  constructor
  · rintro ⟨hamf, hmac⟩
    refine ⟨sqnField autn ^^^ (subscriberOf usim).ak (ofOctets rand), ?_⟩
    rw [Subscriber.autn, hamf, hmac, BitVec.xor_assoc, BitVec.xor_self, BitVec.xor_zero]
  · rintro ⟨sqn, heq⟩
    obtain ⟨hfirst, hmac⟩ := append_eq_append_iff.mp heq
    obtain ⟨hsqn, hamf⟩ := append_eq_append_iff.mp hfirst
    refine ⟨hamf, ?_⟩
    rw [hmac, hsqn, BitVec.xor_assoc, BitVec.xor_self, BitVec.xor_zero]

end Answer

/-! ### The name of the network -/

/-- What `get_mcc` and `get_mnc` give for a network. -/
theorem unpackPlmnIdentity_broadcast (p : Plmn) (rest : List Bool) :
    (unpackPlmnIdentity.run (p.broadcast ++ rest)).1
      = ⟨p.mcc1.val * 100 + p.mcc2.val * 10 + p.mcc3.val,
          p.mnc3.elim (p.mnc1.val * 10 + p.mnc2.val) fun d => p.mnc1.val * 100 + p.mnc2.val * 10 +
          d.val⟩ := by
  have hdigit : ∀ d : Fin 10, d.val % 16 = d := fun d => Nat.mod_eq_of_lt (by omega)
  obtain ⟨mcc1, mcc2, mcc3, mnc1, mnc2, mnc3⟩ := p
  cases mnc3 with
  | none => simp [Plmn.broadcast, unpackPlmnIdentity, unpackDigits, hdigit]
  | some d => simp [Plmn.broadcast, unpackPlmnIdentity, unpackDigits, hdigit]

/-- An MNC of three digits that begins with zero is taken for one of two digits. -/
theorem plmnOctets_eq_iff (p : Plmn) (rest : List Bool) :
    plmnOctets (unpackPlmnIdentity.run (p.broadcast ++ rest)).1.mcc
        (unpackPlmnIdentity.run (p.broadcast ++ rest)).1.mnc = p.octets
      ↔ p.mnc3 = none ∨ p.mnc1 ≠ 0 := by
  rw [unpackPlmnIdentity_broadcast]
  have hzero : p.mnc1 ≠ 0 ↔ p.mnc1.val ≠ 0 := by rw [ne_eq, ne_eq, Fin.ext_iff]; rfl
  rw [hzero]
  obtain ⟨mcc1, mcc2, mcc3, mnc1, mnc2, mnc3⟩ := p
  have hmcc : (mcc1.val * 100 + mcc2.val * 10 + mcc3.val) / 100 % 10 = mcc1.val := by omega
  have hmcc' : (mcc1.val * 100 + mcc2.val * 10 + mcc3.val) / 10 % 10 = mcc2.val := by omega
  have hmcc'' : (mcc1.val * 100 + mcc2.val * 10 + mcc3.val) % 10 = mcc3.val := by omega
  cases mnc3 with
  | none =>
    have hmnc : (mnc1.val * 10 + mnc2.val) / 10 % 10 = mnc1.val := by omega
    have hmnc' : (mnc1.val * 10 + mnc2.val) % 10 = mnc2.val := by omega
    refine iff_of_true ?_ (.inl rfl)
    simp only [Option.elim_none, Plmn.octets]
    rw [plmnOctets, if_pos (by omega), hmcc, hmcc', hmcc'', hmnc, hmnc']
    rfl
  | some d =>
    simp only [Option.elim_some, reduceCtorEq, false_or, Plmn.octets]
    by_cases hlt : mnc1.val * 100 + mnc2.val * 10 + d.val < 100
    · -- The code fills with 15 where the third digit belongs.
      rw [plmnOctets, if_pos hlt]
      refine iff_of_false (fun h => ?_) (by omega)
      simp only [List.cons.injEq] at h
      have hfill := (digits_inj (a := 15) (by decide) (by omega) (by omega) (by omega) h.2.1).1
      omega
    · have hmnc : (mnc1.val * 100 + mnc2.val * 10 + d.val) / 100 % 10 = mnc1.val := by omega
      have hmnc' : (mnc1.val * 100 + mnc2.val * 10 + d.val) / 10 % 10 = mnc2.val := by omega
      have hmnc'' : (mnc1.val * 100 + mnc2.val * 10 + d.val) % 10 = d.val := by omega
      rw [plmnOctets, if_neg hlt, hmcc, hmcc', hmcc'', hmnc, hmnc', hmnc'']
      exact iff_of_true rfl (by omega)

/-! ### Runs -/

section Runs

variable (sha256 : Bytes → Bytes → Octets 32) (F : SecurityFunctions)

/-- What the operator configures. -/
def credentials (usim : Usim) : AuthAlgo × Octets 16 × Octets 16 × Octets 2 :=
  (usim.authAlgo, usim.k, usim.op, usim.amf)

/-- No step changes what the operator configures. -/
theorem credentials_step (G : SecurityFunctions) (s : Nas) (a : NasAction) :
    credentials (s.step G a).usim = credentials s.usim := by
  -- One case for each message, and only the authentication request writes to the USIM.
  cases a with
  | notifyConnectionSetup =>
    rw [Nas.step, Nas.notifyConnectionSetup]
    split <;> rfl
  | writePdu lcid pdu =>
    cases pdu with
    | attachAccept msg =>
      simp only [Nas.step, Nas.writePdu, Nas.parseAttachAccept]
      split
      · split <;> rfl
      · rfl
    | authenticationRequest rand autn mcc mnc =>
      obtain ⟨res, heq⟩ := s.usim.generateAuthenticationResponse_eq G rand autn mcc mnc
      simp only [Nas.step, Nas.writePdu, Nas.parseAuthenticationRequest, heq]
      split <;> rfl
    | securityModeCommand cmd =>
      simp only [Nas.step, Nas.writePdu, Nas.parseSecurityModeCommand]
      split <;> rfl
    | attachReject => rfl
    | authenticationReject => rfl
    | identityRequest => rfl
    | serviceReject => rfl
    | esmInformationRequest => rfl
    | emmInformation => rfl
    | other => rfl

/-- No action changes the credentials of the subscriber. Induction on the actions. -/
theorem credentials_run (G : SecurityFunctions) (s : Nas) (actions : List NasAction) :
    credentials (actions.foldl (Nas.step G) s).usim = credentials s.usim := by
  induction actions generalizing s with
  | nil => rfl
  | cons a actions ih => rw [List.foldl_cons, ih, credentials_step]

/-- What NAS does with an authentication request. -/
theorem authenticationRequest_eq {s : Nas} (halgo : s.usim.authAlgo = .milenage) (lcid : Nat)
    (rand autn : Octets 16)
    (mcc mnc : Nat) :
    let v := liblteSecurityMilenageF2345 s.usim.k s.usim.op rand
    let next :=
      s.step (securityFunctions sha256 F)
        (.writePdu lcid (.authenticationRequest rand autn mcc mnc))
    (next.sent = s.sent ++ [.authenticationResponse v.1] ∧
    s.usim.Genuine (securityFunctions sha256 F) rand autn ∨
        next.sent = s.sent ∧ ¬s.usim.Genuine (securityFunctions sha256 F) rand autn) ∧
      next.usim.ck = v.2.1 ∧ next.usim.ik = v.2.2.1 ∧
      next.usim.kAsme = sha256 (List.ofFn v.2.1 ++ List.ofFn v.2.2.1)
        (kAsmeString v.2.2.2 (Usim.sqnOf autn v.2.2.2) mcc mnc) := by
  have hvalid := s.usim.netValid_iff (securityFunctions sha256 F) rand autn mcc mnc
  simp only [Usim.generateAuthenticationResponse, halgo] at hvalid
  simp only [Nas.step, Nas.writePdu, Nas.parseAuthenticationRequest,
    Usim.generateAuthenticationResponse, halgo]
  split
  · rename_i h
    exact ⟨.inl ⟨rfl, hvalid.mp h⟩, rfl, rfl, rfl⟩
  · rename_i h
    exact ⟨.inr ⟨rfl, fun hg => h (hvalid.mpr hg)⟩, rfl, rfl, rfl⟩

/-- SQN with AK over it goes into the string as it came in AUTN. -/
theorem kAsmeString_sqnOf (autn : Octets 16) (ak : Octets 6) (mcc mnc : Nat) :
    kAsmeString ak (Usim.sqnOf autn ak) mcc mnc
      = 0x10 :: plmnOctets mcc mnc ++ [0x00, 0x03]
        ++ (List.ofFn fun i : Fin 6 => autn (i.castAdd 10)) ++ [0x00, 0x06] := by
  have hsqn : ∀ i : Fin 6, Usim.sqnOf autn ak i ^^^ ak i = autn (i.castAdd 10) := fun i => by
    rw [Usim.sqnOf, UInt8.xor_assoc, UInt8.xor_self, UInt8.xor_zero]
    rfl
  simp only [kAsmeString, hsqn]

/-- The string that a network's octets go into. -/
theorem string_eq_iff (p : Plmn) (autn : Octets 16) {octets : Bytes} (hlength : octets.length = 3) :
    0x10 :: octets ++ [0x00, 0x03] ++ (List.ofFn fun i : Fin 6 => autn (i.castAdd 10)) ++
      [0x00, 0x06]
        = p.kAsmeString autn
      ↔ octets = p.octets := by
  rw [Plmn.kAsmeString]
  constructor
  · intro h
    simp only [List.append_assoc, List.cons_append, List.cons.injEq, true_and] at h
    exact (List.append_inj h (by rw [hlength]; rfl)).1
  · intro h
    rw [h]

/-- **The requests that NAS answers.** After any messages, a request is answered exactly if the
network can make its AUTN for some sequence number, and then with the response that the network
expects. CK and IK are those of the network. The string that `K_asme` is derived from is the one of
the network exactly if its MNC has two digits or does not begin with zero. -/
theorem authentication_spec {s : Nas} (halgo : s.usim.authAlgo = .milenage)
    (actions : List NasAction) (lcid : Nat)
    (rand autn : Octets 16) (p : Plmn) (rest : List Bool) :
    let G := securityFunctions sha256 F
    let network := (unpackPlmnIdentity.run (p.broadcast ++ rest)).1
    let before := actions.foldl (Nas.step G) s
    let after :=
      before.step G (.writePdu lcid (.authenticationRequest rand autn network.mcc network.mnc))
    let sub := subscriberOf s.usim
    let string := 0x10 :: plmnOctets network.mcc network.mnc ++ [0x00, 0x03]
      ++ (List.ofFn fun i : Fin 6 => autn (i.castAdd 10)) ++ [0x00, 0x06]
    (after.sent ≠ before.sent ↔ ∃ sqn, ofOctets autn = sub.autn (ofOctets rand) sqn) ∧
      (after.sent ≠ before.sent → ∃ res, after.sent = before.sent ++ [.authenticationResponse res] ∧
        bigEndian res = sub.res (ofOctets rand)) ∧
      ofOctets after.usim.ck = sub.ck (ofOctets rand) ∧ ofOctets after.usim.ik
        = sub.ik (ofOctets rand) ∧
      after.usim.kAsme = sha256 (List.ofFn after.usim.ck ++ List.ofFn after.usim.ik) string ∧
      (string = p.kAsmeString autn ↔ p.mnc3 = none ∨ p.mnc1 ≠ 0) := by
  intro G network before after sub string
  -- The messages before this one have left the credentials as they were.
  have hrun := credentials_run G s actions
  simp only [credentials, Prod.mk.injEq] at hrun
  obtain ⟨halgo', hk, hop, hamf⟩ := hrun
  have hsub : subscriberOf before.usim = sub := by
    show subscriberOf (actions.foldl (Nas.step G) s).usim = subscriberOf s.usim
    rw [subscriberOf, hk, hop, hamf]
    rfl
  have hgenuine := @genuine_iff sha256 F before.usim (halgo'.trans halgo) rand autn
  rw [hsub] at hgenuine
  obtain ⟨hsent, hck, hik, hkAsme⟩ :=
    authenticationRequest_eq sha256 F (s := before) (halgo'.trans halgo) lcid rand autn network.mcc
      network.mnc
  have hne : ∀ m : UplinkMsg, before.sent ++ [m] ≠ before.sent := fun m h => by
    have hlength := congrArg List.length h
    rw [List.length_append, List.length_singleton] at hlength
    omega
  refine ⟨?_, ?_, ?_, ?_, ?_, ?_⟩
  · rw [← hgenuine]
    rcases hsent with ⟨hanswer, hg⟩ | ⟨hsame, hg⟩
    · exact iff_of_true (fun h => hne _ (hanswer.symm.trans h)) hg
    · exact iff_of_false (fun h => h hsame) hg
  · intro hchanged
    rcases hsent with ⟨hanswer, -⟩ | ⟨hsame, -⟩
    · refine ⟨_, hanswer, (bigEndian_res before.usim.k before.usim.op rand).trans ?_⟩
      rw [← hsub]
      rfl
    · exact absurd hsame hchanged
  · rw [← hsub]
    exact (congrArg ofOctets hck).trans (ofOctets_ck before.usim.k before.usim.op rand)
  · rw [← hsub]
    exact (congrArg ofOctets hik).trans (ofOctets_ik before.usim.k before.usim.op rand)
  · rw [kAsmeString_sqnOf, ← hck, ← hik] at hkAsme
    exact hkAsme
  · exact (string_eq_iff p autn (length_plmnOctets _ _)).trans (plmnOctets_eq_iff p rest)

/-- A USIM with Milenage. -/
def testUsim : Usim :=
  { authAlgo := .milenage, amf := ![0x80, 0x00], op := fun i => 0xcd - UInt8.ofNat i,
    imei := 353490069873319, k := fun i => 0x46 + 3 * UInt8.ofNat i, ck := fun _ => 0,
    ik := fun _ => 0, ak := fun _ => 0, mac := fun _ => 0, autn := fun _ => 0,
    kAsme := fun _ => 0 }

/-- In the network 001-01, a device refuses a request that was made for another one, and then
answers its own, with the sequence number 32. Its `K_asme` is that of the network. -/
theorem authentication_spec_genuine :
    let sha256 : Bytes → Bytes → Octets 32 := fun key msg i => key.getD i 0 ^^^ msg.getD i 0
    let G := securityFunctions sha256 default
    let rand : Octets 16 := fun i => 0x23 + 17 * UInt8.ofNat i
    let sub := subscriberOf testUsim
    let autn := toOctets (sub.autn (ofOctets rand) 32)
    let p : Plmn := ⟨0, 0, 1, 0, 1, none⟩
    let network := (unpackPlmnIdentity.run (p.broadcast ++ [])).1
    let request :=
      fun autn => NasAction.writePdu 1 (.authenticationRequest rand autn network.mcc network.mnc)
    let before :=
      [request rand].foldl (Nas.step G) (Nas.new testUsim 0 1 default default .eea0 .eia2)
    let after := before.step G (request autn)
    (∃ res, after.sent = before.sent ++ [.authenticationResponse res] ∧
        bigEndian res = sub.res (ofOctets rand)) ∧
      after.usim.kAsme = sha256 (List.ofFn after.usim.ck ++ List.ofFn after.usim.ik)
        (p.kAsmeString autn) := by
  intro sha256 G rand sub autn p network request before after
  obtain ⟨hanswered, hres, -, -, hkAsme, hstring⟩ := authentication_spec sha256 default
    (s := Nas.new testUsim 0 1 default default .eea0 .eia2) rfl [request rand] 1 rand autn p []
  exact ⟨hres (hanswered.mpr ⟨32, ofOctets_toOctets _⟩),
    hkAsme.trans (congrArg (sha256 _) (hstring.mpr (.inl rfl)))⟩

end Runs

end SrsUE.Security
