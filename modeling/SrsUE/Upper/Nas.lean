import SrsUE.Rlc.Common
import SrsUE.Upper.Usim

/-!
# `SrsUE.Upper.Nas`: the messages of NAS and their protection

The messages that `nas.cc` receives from RRC, and those that it sends. A received message comes as
the structure that liblte unpacks it to, and the ones that are sent with a MAC are packed here as
liblte does it, with their sequence number. A buffer that a message is packed into may have octets
left over where no MAC is written: they are zero here.

`sent` and `keysAtCount` are kept for the proofs: the messages handed to RRC, and the integrity keys
of those that were protected since `count_ul` was last incremented.
-/

set_option autoImplicit false

namespace SrsUE.Upper

open SrsUE.Rlc (add32)

/-- The states of `emm_state_t` that the code sets. -/
inductive EmmState where
  | deregistered
  | registered
deriving DecidableEq, Repr

/-- A message with a security header: what goes to RRC, and what its MAC was computed with. -/
structure Secured where
  bytes : List UInt8
  key : Octets 32
  count : Nat
  algo : IntegrityAlgorithmId

/-- The message carries a MAC. -/
def Secured.isProtected (m : Secured) : Bool := m.algo = .eia1 || m.algo = .eia2

/-- A message that NAS sends. -/
inductive UplinkMsg where
  | attachRequest
  | authenticationResponse (res : Octets 8)
  | securityModeReject
  | securityModeComplete (m : Secured)
  | attachComplete (m : Secured)
  | serviceRequest (m : Secured)

/-- What NAS reads of an `attach_accept` and the bearer request in it. -/
structure AttachAccept where
  epsOnly : Bool
  guti : Option (Nat × Nat)
  pdnTypeIpv4 : Bool
  pdnAddr : Nat
  epsBearerId : UInt8
  procTransactionId : Option UInt8
deriving DecidableEq, Repr

/-- What NAS reads of a `security_mode_command`. -/
structure SecurityModeCommand where
  ksi : Nat
  tscNative : Bool
  typeOfEea : CipheringAlgorithmId
  typeOfEia : IntegrityAlgorithmId
  imeisvRequested : Bool
deriving DecidableEq, Repr

/-- The fields of `nas` that have to do with its messages, and its `usim`. -/
structure Nas where
  usim : Usim
  state : EmmState := .deregistered
  guti : Option (Nat × Nat) := none
  ipAddr : Nat := 0
  epsBearerId : UInt8 := 0
  transactionId : UInt8
  countUl : Nat := 0
  countDl : Nat := 0
  ksi : Nat
  kNasEnc : Octets 32
  kNasInt : Octets 32
  cipherAlgo : CipheringAlgorithmId
  integAlgo : IntegrityAlgorithmId
  sent : List UplinkMsg := []
  keysAtCount : List (Octets 32) := []

namespace Nas

/-- A `nas` after its constructor, with what the constructor leaves as it is in memory. -/
def new (usim : Usim) (transactionId : UInt8) (ksi : Nat) (kNasEnc kNasInt : Octets 32)
    (cipherAlgo : CipheringAlgorithmId) (integAlgo : IntegrityAlgorithmId) : Nas :=
  { usim := usim, transactionId := transactionId, ksi := ksi, kNasEnc := kNasEnc
    kNasInt := kNasInt, cipherAlgo := cipherAlgo, integAlgo := integAlgo }

/-- `&k_nas_int[16]` -/
def lowKey (key : Octets 32) : Octets 16 := fun i => key (i.natAdd 16)

/-- `integrity_generate`. It writes a MAC for EIA1 and EIA2 only. The direction is uplink. -/
def integrityGenerate (F : SecurityFunctions) (integAlgo : IntegrityAlgorithmId)
    (key : Octets 32) (count rbId : Nat) (msg : List UInt8) : Octets 4 :=
  match integAlgo with
  | .eia1 => F.eia1 (lowKey key) count rbId 0 msg
  | .eia2 => F.eia2 (lowKey key) count rbId 0 msg
  | .eia0 | .other _ => fun _ => 0

/-- A message is packed with the security header, the sequence number and then its body. The MAC is
over what follows it, with `lcid - 1` as a `uint8_t`. -/
def secure (F : SecurityFunctions) (s : Nas) (lcid : Nat) (body : List UInt8) : Secured :=
  let rest := UInt8.ofNat s.countUl :: body
  let mac := integrityGenerate F s.integAlgo s.kNasInt s.countUl ((lcid + 255) % 256) rest
  { bytes := 0x27 :: List.ofFn mac ++ rest
    key := s.kNasInt, count := s.countUl, algo := s.integAlgo }

/-- `rrc->write_sdu` -/
def writeSdu (s : Nas) (m : UplinkMsg) : Nas := { s with sent := s.sent ++ [m] }

/-- `rrc->write_sdu` of a message with a security header. -/
def writeSecured (s : Nas) (m : Secured) (kind : Secured → UplinkMsg) : Nas :=
  { s.writeSdu (kind m) with
      keysAtCount := if m.isProtected then m.key :: s.keysAtCount else s.keysAtCount }

/-- `count_ul++` -/
def incrementUl (s : Nas) : Nas := { s with countUl := add32 s.countUl 1, keysAtCount := [] }

/-- The body of an attach complete, with `activate_default_eps_bearer_context_accept` in its
container. -/
def attachCompleteBody (epsBearerId transactionId : UInt8) : List UInt8 :=
  [0x07, 0x43, 0, 3, (epsBearerId <<< 4) ||| 2, transactionId, 0xC2]

/-- `parse_attach_accept` -/
def parseAttachAccept (F : SecurityFunctions) (s : Nas) (lcid : Nat) (msg : AttachAccept) : Nas :=
  let s := { s with countDl := add32 s.countDl 1 }
  if msg.epsOnly then
    let s := { s with guti := msg.guti <|> s.guti }
    if msg.pdnTypeIpv4 then
      let s := { s with
        ipAddr := s.ipAddr ||| msg.pdnAddr
        epsBearerId := msg.epsBearerId
        transactionId := msg.procTransactionId.getD s.transactionId
        state := .registered }
      let s := s.incrementUl
      s.writeSecured (s.secure F lcid (attachCompleteBody s.epsBearerId s.transactionId))
        .attachComplete
    else s
  else { s with state := .deregistered }

/-- `parse_attach_reject` and `parse_authentication_reject` -/
def parseReject (s : Nas) : Nas := { s with state := .deregistered }

/-- `parse_authentication_request` -/
def parseAuthenticationRequest (F : SecurityFunctions) (s : Nas) (rand autn : Octets 16)
    (mcc mnc : Nat) : Nas :=
  let (usim, netValid, res) := s.usim.generateAuthenticationResponse F rand autn mcc mnc
  let s := { s with usim := usim }
  if netValid then s.writeSdu (.authenticationResponse res) else s

/-- The IMEISV in a security mode complete: the IMEI digits with the last one replaced by the
software version 53, as `pack_mobile_id_ie` packs them. -/
def imeisvIe (usim : Usim) : List UInt8 :=
  let id := usim.getImeiVec.take 14 ++ [5, 3]
  let digit (i : Nat) : UInt8 := id.getD i 0
  ([0x23, 9, (digit 0 <<< 4) ||| 3] : List UInt8) ++
    (List.range 7).map (fun i => (digit (2 * i + 2) <<< 4) ||| digit (2 * i + 1)) ++
    [0xF0 ||| digit 15]

/-- The command is answered with a security mode reject. -/
def rejects (cmd : SecurityModeCommand) : Bool :=
  decide (cmd.typeOfEea ≠ .eea0) ||
    (decide (cmd.typeOfEia ≠ .eia2) && decide (cmd.typeOfEia ≠ .eia1)) || !cmd.tscNative

/-- `parse_security_mode_command`. The answer does not increment `count_ul`. -/
def parseSecurityModeCommand (F : SecurityFunctions) (s : Nas) (lcid : Nat)
    (cmd : SecurityModeCommand) : Nas :=
  let s := { s with ksi := cmd.ksi, cipherAlgo := cmd.typeOfEea, integAlgo := cmd.typeOfEia }
  if rejects cmd then s.writeSdu .securityModeReject
  else
    let keys := s.usim.generateNasKeys F s.cipherAlgo s.integAlgo
    let s := { s with kNasEnc := keys.1, kNasInt := keys.2 }
    let imeisv := if cmd.imeisvRequested then imeisvIe s.usim else []
    s.writeSecured (s.secure F lcid (0x07 :: 0x5E :: imeisv)) .securityModeComplete

/-- `send_service_request`. Only the last two octets of the MAC are sent. -/
def sendServiceRequest (F : SecurityFunctions) (s : Nas) : Nas :=
  let s := s.incrementUl
  let header : List UInt8 :=
    [0xC7, UInt8.ofNat ((s.ksi % 8) <<< 5) ||| UInt8.ofNat (s.countUl % 32)]
  let mac := integrityGenerate F s.integAlgo s.kNasInt s.countUl 0 header
  s.writeSecured
    { bytes := header ++ (List.ofFn mac).drop 2
      key := s.kNasInt, count := s.countUl, algo := s.integAlgo } .serviceRequest

/-- `notify_connection_setup` -/
def notifyConnectionSetup (F : SecurityFunctions) (s : Nas) : Nas :=
  if s.state = .deregistered then s.writeSdu .attachRequest else s.sendServiceRequest F

end Nas

/-- A message that `nas::write_pdu` receives. With an authentication request come the MCC and MNC
that RRC gives. -/
inductive NasPdu where
  | attachAccept (msg : AttachAccept)
  | attachReject
  | authenticationRequest (rand autn : Octets 16) (mcc mnc : Nat)
  | authenticationReject
  | identityRequest
  | securityModeCommand (cmd : SecurityModeCommand)
  | serviceReject
  | esmInformationRequest
  | emmInformation
  | other

/-- `nas::write_pdu`. The functions for an identity request, a service reject and the two
information messages are not written. -/
def Nas.writePdu (F : SecurityFunctions) (s : Nas) (lcid : Nat) : NasPdu → Nas
  | .attachAccept msg => s.parseAttachAccept F lcid msg
  | .attachReject | .authenticationReject => s.parseReject
  | .authenticationRequest rand autn mcc mnc => s.parseAuthenticationRequest F rand autn mcc mnc
  | .securityModeCommand cmd => s.parseSecurityModeCommand F lcid cmd
  | .identityRequest | .serviceReject | .esmInformationRequest | .emmInformation | .other => s

/-- A call of RRC. -/
inductive NasAction where
  | notifyConnectionSetup
  | writePdu (lcid : Nat) (pdu : NasPdu)

/-- One step of NAS. -/
def Nas.step (F : SecurityFunctions) (s : Nas) : NasAction → Nas
  | .notifyConnectionSetup => s.notifyConnectionSetup F
  | .writePdu lcid pdu => s.writePdu F lcid pdu

end SrsUE.Upper
