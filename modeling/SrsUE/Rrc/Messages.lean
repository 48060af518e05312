import SrsUE.Rrc.RrConfig
import SrsUE.Rlc.AmPdu

/-!
# `SrsUE.Rrc.Messages`: the messages on the common and the dedicated control channel

`liblte_rrc_pack_ul_ccch_msg`, `liblte_rrc_pack_dl_ccch_msg` and `liblte_rrc_pack_ul_dcch_msg` with
their counterparts, and what `rrc.cc` does with the bits of a message that it sends. Of the messages
on the uplink DCCH, those are modelled that the reader handles and `rrc.cc` sends.

The source copies the message behind its header to a buffer of its own before it reads it. The bits
behind the message are then what the buffer has from before, and a reader may run into them. A
message that is written goes through two bit buffers and a byte buffer, and none of the copies looks
at the size of its target.
-/

set_option autoImplicit false

namespace SrsUE.Rrc

open SrsUE.Lib SrsUE.Rlc

/-- `LIBLTE_MAX_MSG_SIZE_BITS`, the size of the array in a `LIBLTE_BIT_MSG_STRUCT`. -/
def maxMsgSizeBits : Nat := 102048

/-- `LIBLTE_MSG_HEADER_OFFSET`, the room in front of `msg`. -/
def msgHeaderOffset : Nat := 1024

/-- The bits from `msg` to the end of its array. The pointer `msg` itself is stored behind them. -/
def msgRoomBits : Nat := maxMsgSizeBits - msgHeaderOffset

/-- The end of each pack function: the message, which is written to `global_msg` first, behind its
header. A message that is too long by the test of the source is dropped, and `rrc.cc` does not look
at the error. There is no value when the bits run over the end of an array. -/
def withHeader (header msg : List Bool) : Option (List Bool) :=
  -- `global_msg` is full. The writers of its parts do not look.
  if msgRoomBits < msg.length then none
  else if msg.length ≤ maxMsgSizeBits - header.length then
    if header.length + msg.length ≤ msgRoomBits then some (header ++ msg) else none
  else some []

/-- A message with a header of a few bits is too long for the array before it is too long by the
test. -/
theorem withHeader_eq_some_iff {header msg bits : List Bool}
    (hheader : header.length ≤ msgHeaderOffset) :
    withHeader header msg = some bits ↔
      (header ++ msg).length ≤ msgRoomBits ∧ bits = header ++ msg := by
  have hroom : msgRoomBits = maxMsgSizeBits - msgHeaderOffset := rfl
  have hsize : msgHeaderOffset ≤ maxMsgSizeBits := by decide
  rw [withHeader, List.length_append]
  split_ifs with hmsg htest hboth
  · exact iff_of_false nofun fun h => by omega
  · exact ⟨fun h => ⟨hboth, (Option.some.inj h).symm⟩, fun h => congrArg some h.2.symm⟩
  · exact iff_of_false nofun fun h => hboth h.1
  · omega

def putByte (b : UInt8) : List Bool := putNat 8 b.toNat

def getByte : BitReader UInt8 := UInt8.ofNat <$> getNat 8

/-! ### Requests on the common control channel -/

structure STmsi where
  mmec : BitVec 8
  mTmsi : BitVec 32
deriving DecidableEq, Repr

/-- `ue_id` with its type. Of `random`, 40 bits are written. -/
inductive ConReqUeId where
  | sTmsi (id : STmsi)
  | random (value : BitVec 40)
deriving DecidableEq, Repr

structure ConnectionRequest where
  ueId : ConReqUeId
  cause : BitVec 3
deriving DecidableEq, Repr

structure ReestUeIdentity where
  cRnti : BitVec 16
  physCellId : BitVec 9
  shortMacI : BitVec 16
deriving DecidableEq, Repr

structure ConnectionReestablishmentRequest where
  ueId : ReestUeIdentity
  cause : BitVec 2
deriving DecidableEq, Repr

inductive UlCcchMsg where
  | rrcConReestReq (msg : ConnectionReestablishmentRequest)
  | rrcConReq (msg : ConnectionRequest)
deriving DecidableEq, Repr

/-- `liblte_rrc_pack_s_tmsi_ie` -/
def packSTmsi (s : STmsi) : List Bool := putBits s.mmec ++ putBits s.mTmsi

/-- `liblte_rrc_unpack_s_tmsi_ie` -/
def unpackSTmsi : BitReader STmsi := do
  let mmec ← getBits 8
  let mTmsi ← getBits 32
  return { mmec, mTmsi }

def packConReqUeId : ConReqUeId → List Bool
  | .sTmsi s => putFlag false ++ packSTmsi s
  | .random v => putFlag true ++ putNat 8 (v.toNat >>> 32) ++ putNat 32 v.toNat

def unpackConReqUeId : BitReader ConReqUeId := do
  if ← getFlag then
    let high ← getNat 8
    let low ← getNat 32
    return .random (BitVec.ofNat 40 (high <<< 32 ||| low))
  else
    ConReqUeId.sTmsi <$> unpackSTmsi

/-- `liblte_rrc_pack_rrc_connection_request_msg` -/
def packConnectionRequest (m : ConnectionRequest) : List Bool :=
  putFlag false ++ packConReqUeId m.ueId ++ putBits m.cause ++ putNat 1 0

/-- `liblte_rrc_unpack_rrc_connection_request_msg` -/
def unpackConnectionRequest : BitReader ConnectionRequest := do
  let ext ← getFlag
  let ueId ← unpackConReqUeId
  let cause ← getBits 3
  consumeNoncritExtension ext
  return { ueId, cause }

/-- `liblte_rrc_pack_rrc_connection_reestablishment_request_msg` -/
def packConnectionReestablishmentRequest (m : ConnectionReestablishmentRequest) : List Bool :=
  putFlag false ++ putBits m.ueId.cRnti ++ putBits m.ueId.physCellId ++ putBits m.ueId.shortMacI
  ++ putBits m.cause ++ putNat 2 0

/-- `liblte_rrc_unpack_rrc_connection_reestablishment_request_msg` into a structure with the
identity `old`. The three parts of the identity all go to its first member. -/
def unpackConnectionReestablishmentRequest (old : ReestUeIdentity) :
    BitReader ConnectionReestablishmentRequest := do
  let ext ← getFlag
  let _cRnti ← getBits 16
  let _physCellId ← getBits 9
  let shortMacI ← getBits 16
  let cause ← getBits 2
  consumeNoncritExtension ext
  return { ueId := { old with cRnti := shortMacI }, cause }

/-- `liblte_rrc_pack_ul_ccch_msg` -/
def packUlCcchMsg (m : UlCcchMsg) : Option (List Bool) :=
  match m with
  | .rrcConReestReq m =>
    withHeader (putFlag false ++ putFlag false) (packConnectionReestablishmentRequest m)
  | .rrcConReq m => withHeader (putFlag false ++ putFlag true) (packConnectionRequest m)

/-- `liblte_rrc_unpack_ul_ccch_msg` -/
def unpackUlCcchMsg (old : ReestUeIdentity) : BitReader UlCcchMsg := do
  let _ext ← getFlag
  if ← getFlag then
    UlCcchMsg.rrcConReq <$> unpackConnectionRequest
  else
    UlCcchMsg.rrcConReestReq <$> unpackConnectionReestablishmentRequest old

/-! ### Answers on the common control channel -/

structure ConnectionReestablishment where
  rrcTransactionId : BitVec 2
  rrCnfg : RrConfigDedicated
  nextHopChainingCount : BitVec 3
deriving DecidableEq

structure ConnectionReject where
  waitTime : BitVec 4
deriving DecidableEq, Repr

structure ConnectionSetup where
  rrcTransactionId : BitVec 2
  rrCnfg : RrConfigDedicated
deriving DecidableEq

inductive DlCcchMsg where
  | rrcConReest (msg : ConnectionReestablishment)
  | rrcConReestRej
  | rrcConRej (msg : ConnectionReject)
  | rrcConSetup (msg : ConnectionSetup)
deriving DecidableEq

/-- `liblte_rrc_pack_rrc_connection_reestablishment_msg` -/
def packConnectionReestablishment (m : ConnectionReestablishment) : List Bool :=
  putBits m.rrcTransactionId ++ putNat 1 0 ++ putNat 3 0 ++ putNat 1 0 ++
    packRrConfigDedicated m.rrCnfg
  ++ putBits m.nextHopChainingCount

/-- `liblte_rrc_unpack_rrc_connection_reestablishment_msg` into a structure with the configuration
`old`. -/
def unpackConnectionReestablishment (old : RrConfigDedicated) :
    BitReader ConnectionReestablishment :=
  do
  let rrcTransactionId ← getBits 2
  let ext ← getFlag
  let _c1 ← getNat 3
  let _optional ← getFlag
  let rrCnfg ← unpackRrConfigDedicated old
  let nextHopChainingCount ← getBits 3
  consumeNoncritExtension ext
  return { rrcTransactionId, rrCnfg, nextHopChainingCount }

/-- `liblte_rrc_pack_rrc_connection_reestablishment_reject_msg` -/
def packConnectionReestablishmentReject : List Bool := putNat 1 0 ++ putNat 1 0

/-- `liblte_rrc_unpack_rrc_connection_reestablishment_reject_msg` -/
def unpackConnectionReestablishmentReject : BitReader Unit := do
  let ext ← getFlag
  let _optional ← getFlag
  consumeNoncritExtension ext

/-- `liblte_rrc_pack_rrc_connection_reject_msg` -/
def packConnectionReject (m : ConnectionReject) : List Bool :=
  putNat 1 0 ++ putNat 2 0 ++ putNat 1 0 ++ putBits m.waitTime

/-- `liblte_rrc_unpack_rrc_connection_reject_msg` -/
def unpackConnectionReject : BitReader ConnectionReject := do
  let ext ← getFlag
  let _c1 ← getNat 2
  let _optional ← getFlag
  let waitTime ← getBits 4
  consumeNoncritExtension ext
  return { waitTime }

/-- `liblte_rrc_pack_rrc_connection_setup_msg` -/
def packConnectionSetup (m : ConnectionSetup) : List Bool :=
  putBits m.rrcTransactionId ++ putNat 1 0 ++ putNat 3 0 ++ putNat 1 0 ++
    packRrConfigDedicated m.rrCnfg

/-- `liblte_rrc_unpack_rrc_connection_setup_msg` into a structure with the configuration `old`. -/
def unpackConnectionSetup (old : RrConfigDedicated) : BitReader ConnectionSetup := do
  let rrcTransactionId ← getBits 2
  let ext ← getFlag
  let _c1 ← getNat 3
  let _optional ← getFlag
  let rrCnfg ← unpackRrConfigDedicated old
  consumeNoncritExtension ext
  return { rrcTransactionId, rrCnfg }

/-- `liblte_rrc_pack_dl_ccch_msg` -/
def packDlCcchMsg (m : DlCcchMsg) : Option (List Bool) :=
  match m with
  | .rrcConReest m => withHeader (putFlag false ++ putNat 2 0) (packConnectionReestablishment m)
  | .rrcConReestRej => withHeader (putFlag false ++ putNat 2 1) packConnectionReestablishmentReject
  | .rrcConRej m => withHeader (putFlag false ++ putNat 2 2) (packConnectionReject m)
  | .rrcConSetup m => withHeader (putFlag false ++ putNat 2 3) (packConnectionSetup m)

/-- `liblte_rrc_unpack_dl_ccch_msg` into a structure with the configuration `old`. `parse_dl_ccch`
has set it to zero. -/
def unpackDlCcchMsg (old : RrConfigDedicated) : BitReader DlCcchMsg := do
  let _ext ← getFlag
  match ← getNat 2 with
  | 0 => DlCcchMsg.rrcConReest <$> unpackConnectionReestablishment old
  | 1 => (fun _ => DlCcchMsg.rrcConReestRej) <$> unpackConnectionReestablishmentReject
  | 2 => DlCcchMsg.rrcConRej <$> unpackConnectionReject
  | _ => DlCcchMsg.rrcConSetup <$> unpackConnectionSetup old

/-! ### Messages on the dedicated control channel -/

/-- `LIBLTE_RRC_PLMN_IDENTITY_STRUCT`. A code of two digits has the upper byte of `mnc` set. -/
structure PlmnIdentity where
  mcc : Nat
  mnc : Nat
deriving DecidableEq, Repr

structure RegisteredMme where
  plmnId : Option PlmnIdentity
  mmegi : BitVec 16
  mmec : BitVec 8
deriving DecidableEq, Repr

structure ConnectionSetupComplete where
  rrcTransactionId : BitVec 2
  selectedPlmnId : Offset 1 3
  registeredMme : Option RegisteredMme
  dedicatedInfoNas : Bytes
deriving DecidableEq, Repr

/-- `dedicated_info` has a type and is written in the same way for each. -/
structure UlInformationTransfer where
  dedicatedInfoType : BitVec 2
  dedicatedInfo : Bytes
deriving DecidableEq, Repr

/-- `LIBLTE_RRC_UL_DCCH_MSG_STRUCT`. The completions hold their `rrc_transaction_id`. -/
inductive UlDcchMsg where
  | rrcConReconfigComplete (rrcTransactionId : BitVec 2)
  | rrcConReestComplete (rrcTransactionId : BitVec 2)
  | rrcConSetupComplete (msg : ConnectionSetupComplete)
  | securityModeComplete (rrcTransactionId : BitVec 2)
  | ulInfoTransfer (msg : UlInformationTransfer)
deriving DecidableEq, Repr

/-- Three decimal digits of a number. -/
def packDigits (v : Nat) : List Bool :=
  putNat 4 (v % 1000 / 100) ++ putNat 4 (v % 100 / 10) ++ putNat 4 (v % 10)

def unpackDigits : BitReader Nat := do
  let hundreds ← getNat 4
  let tens ← getNat 4
  let units ← getNat 4
  return hundreds * 100 + tens * 10 + units

/-- `liblte_rrc_pack_plmn_identity_ie` -/
def packPlmnIdentity (p : PlmnIdentity) : List Bool :=
  putFlag true ++ packDigits p.mcc ++
  if p.mnc &&& 0xFF00 = 0xFF00 then putFlag false ++ putNat 4 (p.mnc % 100 / 10) ++
    putNat 4 (p.mnc % 10)
  else putFlag true ++ packDigits p.mnc

/-- `liblte_rrc_unpack_plmn_identity_ie` -/
def unpackPlmnIdentity : BitReader PlmnIdentity := do
  let mcc ← if ← getFlag then unpackDigits else pure 0xFFFF
  if ← getFlag then
    let mnc ← unpackDigits
    return { mcc, mnc }
  else
    let tens ← getNat 4
    let units ← getNat 4
    return { mcc, mnc := tens * 10 + units }

/-- The registered MME of `liblte_rrc_pack_rrc_connection_setup_complete_msg`. -/
def packRegisteredMme (m : RegisteredMme) : List Bool :=
  putFlagged packPlmnIdentity m.plmnId ++ putBits m.mmegi ++ putBits m.mmec

def unpackRegisteredMme : BitReader RegisteredMme := do
  let plmnId ← getFlagged unpackPlmnIdentity
  let mmegi ← getBits 16
  let mmec ← getBits 8
  return { plmnId, mmegi, mmec }

/-- `liblte_rrc_pack_dedicated_info_nas_ie`, and the one for CDMA2000. From 16383 bytes on there is
no length. -/
def packDedicatedInfo (msg : Bytes) : List Bool :=
  (if msg.length < 128 then putNat 1 0 ++ putNat 7 msg.length
    else if msg.length < 16383 then putNat 1 1 ++ putNat 1 0 ++ putNat 14 msg.length
    else [])
  ++ putList putByte msg

/-- `liblte_rrc_unpack_dedicated_info_nas_ie`, and the one for CDMA2000. -/
def unpackDedicatedInfo : BitReader Bytes := do
  let nBytes ← unpackLength
  let msg ← getList getByte nBytes
  return msg.val

/-- `liblte_rrc_pack_rrc_connection_setup_complete_msg` -/
def packConnectionSetupComplete (m : ConnectionSetupComplete) : List Bool :=
  putBits m.rrcTransactionId ++ putNat 1 0 ++ putNat 2 0 ++ putFlag m.registeredMme.isSome ++
    putNat 1 0
  ++ putOffset m.selectedPlmnId ++ putOpt packRegisteredMme m.registeredMme
  ++ packDedicatedInfo m.dedicatedInfoNas

/-- `liblte_rrc_unpack_rrc_connection_setup_complete_msg` -/
def unpackConnectionSetupComplete : BitReader ConnectionSetupComplete := do
  let rrcTransactionId ← getBits 2
  let ext ← getFlag
  let _c1 ← getNat 2
  let registeredMmePresent ← getFlag
  let _optional ← getFlag
  let selectedPlmnId ← getOffset 1 3
  let registeredMme ← getOpt registeredMmePresent unpackRegisteredMme
  let dedicatedInfoNas ← unpackDedicatedInfo
  consumeNoncritExtension ext
  return { rrcTransactionId, selectedPlmnId, registeredMme, dedicatedInfoNas }

/-- `liblte_rrc_pack_ul_information_transfer_msg` -/
def packUlInformationTransfer (m : UlInformationTransfer) : List Bool :=
  putNat 1 0 ++ putNat 2 0 ++ putNat 1 0 ++ putBits m.dedicatedInfoType ++
    packDedicatedInfo m.dedicatedInfo

/-- `liblte_rrc_unpack_ul_information_transfer_msg` -/
def unpackUlInformationTransfer : BitReader UlInformationTransfer := do
  let ext ← getFlag
  let _c1 ← getNat 2
  let _optional ← getFlag
  let dedicatedInfoType ← getBits 2
  let dedicatedInfo ← unpackDedicatedInfo
  consumeNoncritExtension ext
  return { dedicatedInfoType, dedicatedInfo }

/-- The three messages that complete a procedure with their transaction only, such as
`liblte_rrc_pack_security_mode_complete_msg`. -/
def packComplete (rrcTransactionId : BitVec 2) : List Bool :=
  putBits rrcTransactionId ++ putNat 1 0 ++ putNat 1 0

def unpackComplete : BitReader (BitVec 2) := do
  let rrcTransactionId ← getBits 2
  let ext ← getFlag
  let _optional ← getFlag
  consumeNoncritExtension ext
  return rrcTransactionId

/-- `liblte_rrc_pack_ul_dcch_msg` -/
def packUlDcchMsg (m : UlDcchMsg) : Option (List Bool) :=
  match m with
  | .rrcConReconfigComplete t => withHeader (putFlag false ++ putNat 4 2) (packComplete t)
  | .rrcConReestComplete t => withHeader (putFlag false ++ putNat 4 3) (packComplete t)
  | .rrcConSetupComplete m =>
    withHeader (putFlag false ++ putNat 4 4) (packConnectionSetupComplete m)
  | .securityModeComplete t => withHeader (putFlag false ++ putNat 4 5) (packComplete t)
  | .ulInfoTransfer m => withHeader (putFlag false ++ putNat 4 9) (packUlInformationTransfer m)

/-- `liblte_rrc_unpack_ul_dcch_msg`, for the types of message above. -/
def unpackUlDcchMsg : BitReader (Option UlDcchMsg) := do
  let _ext ← getFlag
  match ← getNat 4 with
  | 2 => (some ∘ UlDcchMsg.rrcConReconfigComplete) <$> unpackComplete
  | 3 => (some ∘ UlDcchMsg.rrcConReestComplete) <$> unpackComplete
  | 4 => (some ∘ UlDcchMsg.rrcConSetupComplete) <$> unpackConnectionSetupComplete
  | 5 => (some ∘ UlDcchMsg.securityModeComplete) <$> unpackComplete
  | 9 => (some ∘ UlDcchMsg.ulInfoTransfer) <$> unpackUlInformationTransfer
  | _ => pure none

/-! ### Senders -/

/-- "Byte align and pack the message bits for PDCP": the first half. -/
def byteAlign (bits : List Bool) : List Bool :=
  if bits.length % 8 ≠ 0 then bits ++ List.replicate (8 - bits.length % 8) false else bits

/-- The bytes of a message for PDCP, as far as they have room in a `byte_buffer_t`. There is no
value when `srslte_bit_pack_vector` runs over its end. -/
def toPdu (L : SrslteBit) (bits : List Bool) : Option Bytes :=
  let pdu := L.packVector (byteAlign bits)
  if pdu.length ≤ msgRoom then some pdu else none

/-- The loop that fills `uecri` from the first six bytes of a request, the first one on top. -/
def contentionId (pdu : Bytes) : Nat := (pdu.take 6).foldl (fun id b => 256 * id + b.toNat) 0

/-- The request of `send_con_request`, with the S-TMSI that NAS has. -/
def conRequest (sTmsi : Option STmsi) : UlCcchMsg :=
  .rrcConReq
    { ueId := match sTmsi with
        | some s => .sTmsi s
        | none => .random 1000
      -- LIBLTE_RRC_CON_REQ_EST_CAUSE_MO_SIGNALLING
      cause := 3 }

end SrsUE.Rrc
