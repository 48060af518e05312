import SrsUE.Upper.Nas

/-!
# `SrsUE.Proofs.Upper.SecurityContext`: what a failure does to the security context

Both authentication algorithms of `usim` store the new CK, IK and AK before they compare AUTN, and
derive `K_asme` whatever the comparison gives. `parse_security_mode_command` stores the key set
identifier and the algorithms before it decides whether to reject them.

`netValid_iff` and `sent_reject_iff` say when the two fail, and `contextKept_iff` when the failure
leaves the context as it was: only if it would have stored what is there already.
-/

set_option autoImplicit false

namespace SrsUE.Upper

/-! ### Authentication -/

/-- What an authentication algorithm computes from RAND and AUTN. -/
structure AuthVector where
  ck : Octets 16
  ik : Octets 16
  ak : Octets 6
  mac : Octets 8

namespace Usim

/-- The vector of the algorithm that `usim` is configured for. -/
def authVector (F : SecurityFunctions) (s : Usim) (rand autnEnb : Octets 16) : AuthVector :=
  match s.authAlgo with
  | .milenage =>
    let v := F.milenageF2345 s.k s.op rand
    { ck := v.2.1, ik := v.2.2.1, ak := v.2.2.2
      mac := F.milenageF1 s.k s.op rand (sqnOf autnEnb v.2.2.2) s.amf }
  | .xor =>
    let xdout : Octets 16 := fun i => s.k i ^^^ rand i
    let cdout : Octets 8 := Fin.append (sqnOf autnEnb (xorAk xdout)) s.amf
    { ck := rotated xdout 1, ik := rotated xdout 2, ak := xorAk xdout
      mac := fun i => xorFirst xdout i ^^^ cdout i }

/-- The last ten octets of AUTN are the AMF and the MAC that is expected. -/
def Genuine (F : SecurityFunctions) (s : Usim) (rand autnEnb : Octets 16) : Prop :=
  (∀ i : Fin 2, autnEnb ((i.natAdd 6).castLE (by decide)) = s.amf i) ∧
    ∀ i : Fin 8, autnEnb (i.natAdd 8) = (s.authVector F rand autnEnb).mac i

/-- RAND and AUTN yield the keys that are in force already. -/
def SameKeys (F : SecurityFunctions) (s : Usim) (rand autnEnb : Octets 16) (mcc mnc : Nat) :
    Prop :=
  let v := s.authVector F rand autnEnb
  v.ck = s.ck ∧ v.ik = s.ik ∧
    F.generateKAsme v.ck v.ik v.ak (sqnOf autnEnb v.ak) mcc mnc = s.kAsme

/-- The keys of two states are the same. -/
def KeysKept (s s' : Usim) : Prop := s'.ck = s.ck ∧ s'.ik = s.ik ∧ s'.kAsme = s.kAsme

/-- Both algorithms end in the same way. -/
theorem generateAuthenticationResponse_eq (F : SecurityFunctions) (s : Usim)
    (rand autnEnb : Octets 16) (mcc mnc : Nat) :
    ∃ res, s.generateAuthenticationResponse F rand autnEnb mcc mnc =
      s.conclude F autnEnb mcc mnc (s.authVector F rand autnEnb).ck
        (s.authVector F rand autnEnb).ik (s.authVector F rand autnEnb).ak
        (sqnOf autnEnb (s.authVector F rand autnEnb).ak)
        (s.authVector F rand autnEnb).mac res := by
  cases halgo : s.authAlgo with
  | milenage =>
    refine ⟨(F.milenageF2345 s.k s.op rand).1, ?_⟩
    simp only [generateAuthenticationResponse, authVector, halgo]
    rfl
  | xor =>
    refine ⟨xorFirst fun i => s.k i ^^^ rand i, ?_⟩
    simp only [generateAuthenticationResponse, authVector, halgo]
    rfl

/-- The first six octets of the AUTN that is compared are always those that were received. -/
theorem conclude_netValid (F : SecurityFunctions) (s : Usim) (autnEnb : Octets 16)
    (mcc mnc : Nat) (ck ik : Octets 16) (ak : Octets 6) (mac res : Octets 8) :
    (s.conclude F autnEnb mcc mnc ck ik ak (sqnOf autnEnb ak) mac res).2.1 = true ↔
      (∀ i : Fin 2, autnEnb ((i.natAdd 6).castLE (by decide)) = s.amf i) ∧
        ∀ i : Fin 8, autnEnb (i.natAdd 8) = mac i := by
  simp only [conclude, decide_eq_true_eq]
  constructor
  · intro h
    constructor
    · intro i
      have hi := h (Fin.castAdd 8 (Fin.natAdd 6 i))
      rw [Fin.append_left, Fin.append_right] at hi
      exact hi.symm
    · intro i
      have hi := h (Fin.natAdd 8 i)
      rw [Fin.append_right] at hi
      exact hi.symm
  · rintro ⟨hamf, hmac⟩
    refine Fin.addCases (m := 8) (n := 8) (fun i => ?_) fun i => ?_
    · rw [Fin.append_left]
      revert i
      refine Fin.addCases (m := 6) (n := 2) (fun i => ?_) fun i => ?_
      -- SQN is AUTN with AK over it, and the comparison puts AK over it again.
      · rw [Fin.append_left, sqnOf, UInt8.xor_assoc, UInt8.xor_self, UInt8.xor_zero]
        rfl
      · rw [Fin.append_right, ← hamf i]
        rfl
    · rw [Fin.append_right, ← hmac i]

/-- `net_valid` says that AUTN is genuine. -/
theorem netValid_iff (F : SecurityFunctions) (s : Usim) (rand autnEnb : Octets 16)
    (mcc mnc : Nat) :
    (s.generateAuthenticationResponse F rand autnEnb mcc mnc).2.1 = true ↔
      s.Genuine F rand autnEnb := by
  obtain ⟨res, heq⟩ := s.generateAuthenticationResponse_eq F rand autnEnb mcc mnc
  rw [heq]
  exact conclude_netValid ..

/-- The keys are stored whatever `net_valid` says. -/
theorem keysKept_iff (F : SecurityFunctions) (s : Usim) (rand autnEnb : Octets 16)
    (mcc mnc : Nat) :
    s.KeysKept (s.generateAuthenticationResponse F rand autnEnb mcc mnc).1 ↔
      s.SameKeys F rand autnEnb mcc mnc := by
  obtain ⟨res, heq⟩ := s.generateAuthenticationResponse_eq F rand autnEnb mcc mnc
  rw [heq]
  exact Iff.rfl

end Usim

/-! ### Security mode command -/

namespace Nas

/-- The NAS security contexts of two states are the same. -/
def ContextKept (s s' : Nas) : Prop :=
  s'.ksi = s.ksi ∧ s'.cipherAlgo = s.cipherAlgo ∧ s'.integAlgo = s.integAlgo ∧
    s'.kNasEnc = s.kNasEnc ∧ s'.kNasInt = s.kNasInt

/-- The command names the key set and the algorithms that are in force already. -/
def Repeats (s : Nas) (cmd : SecurityModeCommand) : Prop :=
  cmd.ksi = s.ksi ∧ cmd.typeOfEea = s.cipherAlgo ∧ cmd.typeOfEia = s.integAlgo

/-- The answer is a security mode reject exactly when the command is rejected. -/
theorem sent_reject_iff (F : SecurityFunctions) (s : Nas) (lcid : Nat)
    (cmd : SecurityModeCommand) :
    (s.parseSecurityModeCommand F lcid cmd).sent = s.sent ++ [.securityModeReject] ↔
      rejects cmd = true := by
  cases hrej : rejects cmd with
  | true => simp [parseSecurityModeCommand, hrej, writeSdu]
  | false => simp [parseSecurityModeCommand, hrej, writeSecured, writeSdu]

/-- A command that is rejected keeps the context exactly when it repeats what it has. -/
theorem contextKept_of_rejects_iff (F : SecurityFunctions) (s : Nas) (lcid : Nat)
    {cmd : SecurityModeCommand} (hrej : rejects cmd = true) :
    s.ContextKept (s.parseSecurityModeCommand F lcid cmd) ↔ s.Repeats cmd := by
  simp [ContextKept, Repeats, parseSecurityModeCommand, hrej, writeSdu]

end Nas

/-- **What a failure changes.** An authentication that fails leaves CK, IK and `K_asme` as they were
exactly when RAND and AUTN yield these very keys, and a security mode command that is rejected
leaves the NAS security context as it was exactly when it names the key set and the algorithms in
force. -/
theorem contextKept_iff (F : SecurityFunctions) (usim : Usim) (rand autnEnb : Octets 16)
    (mcc mnc : Nat) (nas : Nas) (lcid : Nat) (cmd : SecurityModeCommand) :
    (((usim.generateAuthenticationResponse F rand autnEnb mcc mnc).2.1 = false →
        usim.KeysKept (usim.generateAuthenticationResponse F rand autnEnb mcc mnc).1) ↔
      usim.Genuine F rand autnEnb ∨ usim.SameKeys F rand autnEnb mcc mnc) ∧
    (((nas.parseSecurityModeCommand F lcid cmd).sent = nas.sent ++ [.securityModeReject] →
        nas.ContextKept (nas.parseSecurityModeCommand F lcid cmd)) ↔
      Nas.rejects cmd = false ∨ nas.Repeats cmd) := by
  constructor
  · rw [usim.keysKept_iff, ← Bool.not_eq_true, usim.netValid_iff, Classical.or_iff_not_imp_left]
  · rw [nas.sent_reject_iff]
    cases hrej : Nas.rejects cmd with
    | true => simp [nas.contextKept_of_rejects_iff F lcid hrej]
    | false => simp

/-- A USIM with the XOR algorithm and a key of zeros. -/
def Usim.xorOfZeros : Usim := { (default : Usim) with authAlgo := .xor }

/-- A RAND of ones and an AUTN of zeros fail, and put a CK of ones in force. A command for EIA0 is
rejected, and puts EIA0 in force. -/
theorem not_contextKept :
    ((Usim.xorOfZeros.generateAuthenticationResponse default (fun _ => 1) (fun _ => 0) 1 1).2.1
        = false ∧
      ¬Usim.xorOfZeros.KeysKept
        (Usim.xorOfZeros.generateAuthenticationResponse default (fun _ => 1) (fun _ => 0) 1 1).1) ∧
    ((Nas.new default 0 1 default default .eea0 .eia2).parseSecurityModeCommand default 1
        ⟨1, true, .eea0, .eia0, false⟩).sent = [.securityModeReject] ∧
      ¬(Nas.new default 0 1 default default .eea0 .eia2).ContextKept
        ((Nas.new default 0 1 default default .eea0 .eia2).parseSecurityModeCommand default 1
          ⟨1, true, .eea0, .eia0, false⟩) := by
  refine ⟨⟨?_, ?_⟩, rfl, ?_⟩
  · rw [← Bool.not_eq_true, Usim.netValid_iff]
    rintro ⟨-, hmac⟩
    exact absurd (hmac 6) (by decide)
  · rintro ⟨hck, -⟩
    exact absurd (congrFun hck 0) (by decide)
  · rintro ⟨-, -, hinteg, -⟩
    cases hinteg

end SrsUE.Upper
