import SrsUE.Rlc.Common
import SrsUE.Upper.Nas

/-!
# `SrsUE.Upper.Pdcp`: PDCP

The class `pdcp` of `pdcp.cc` and its entities, `pdcp_entity.cc` (3GPP TS 36.323): the bearers, the
headers of their PDUs, and the integrity protection of SRB1 and SRB2. Nothing is ciphered, and the
counter of the receiving side is never used.

An SDU comes in a `byte_buffer_t` with `msg` where a new buffer has it. The header is written in
front of it.
-/

set_option autoImplicit false

namespace SrsUE.Upper

open SrsUE.Rlc (Bytes add32 bufferHeaderOffset maxBufferSizeBytes nRadioBearers)

/-! ### Packing and unpacking -/

/-- `PDCP_CONTROL_MAC_I` -/
def pdcpControlMacI : Nat := 0

/-- The four bytes of `PDCP_CONTROL_MAC_I`. -/
def controlMac : Bytes :=
  [.ofNat ((pdcpControlMacI >>> 24) &&& 0xFF), .ofNat ((pdcpControlMacI >>> 16) &&& 0xFF),
    .ofNat ((pdcpControlMacI >>> 8) &&& 0xFF), .ofNat (pdcpControlMacI &&& 0xFF)]

/-- `pdcp_pack_control_pdu`. It is `none` where the MAC would be behind the array of the buffer. -/
def pdcpPackControlPdu (sn : Nat) (sdu : Bytes) : Option Bytes :=
  let pdu := UInt8.ofNat (sn &&& 0x1F) :: sdu
  if bufferHeaderOffset - 1 + pdu.length + 4 ≤ maxBufferSizeBytes then some (pdu ++ controlMac)
  else none

/-- `pdcp_unpack_control_pdu`: the SDU and the SN. It is `none` where `N_bytes` would be negative,
and so for the others. -/
def pdcpUnpackControlPdu (pdu : Bytes) : Option (Bytes × Nat) :=
  if 5 ≤ pdu.length then
    some ((pdu.drop 1).take (pdu.length - 1 - 4), (pdu.getD 0 0).toNat &&& 0x1F)
  else none

/-- `PDCP_D_C_DATA_PDU` -/
def pdcpDCDataPdu : Nat := 1

/-- `pdcp_pack_data_pdu_short_sn` -/
def pdcpPackDataPduShortSn (sn : Nat) (sdu : Bytes) : Bytes :=
  .ofNat (pdcpDCDataPdu <<< 7 ||| (sn &&& 0x7F)) :: sdu

/-- `pdcp_unpack_data_pdu_short_sn` -/
def pdcpUnpackDataPduShortSn (pdu : Bytes) : Option (Bytes × Nat) :=
  if 1 ≤ pdu.length then some (pdu.drop 1, (pdu.getD 0 0).toNat &&& 0x7F) else none

/-- `pdcp_pack_data_pdu_long_sn` -/
def pdcpPackDataPduLongSn (sn : Nat) (sdu : Bytes) : Bytes :=
  .ofNat (pdcpDCDataPdu <<< 7 ||| ((sn >>> 8) &&& 0x0F)) :: .ofNat (sn &&& 0xFF) :: sdu

/-- `pdcp_unpack_data_pdu_long_sn` -/
def pdcpUnpackDataPduLongSn (pdu : Bytes) : Option (Bytes × Nat) :=
  if 2 ≤ pdu.length then
    some (pdu.drop 2, ((pdu.getD 0 0).toNat &&& 0x0F) <<< 8 ||| (pdu.getD 1 0).toNat)
  else none

/-! ### The entity -/

/-- `LIBLTE_RRC_PDCP_SN_SIZE_ENUM` -/
inductive PdcpSnSize where
  | bits7
  | bits12
deriving DecidableEq, Repr

/-- What `init` reads of a `LIBLTE_RRC_PDCP_CONFIG_STRUCT`. -/
structure PdcpConfig where
  rlcUmPdcpSnSize : Option PdcpSnSize := none
deriving DecidableEq, Repr

/-- `pdcp_entity` -/
structure PdcpEntity where
  active : Bool
  lcid : Nat
  txCount : Nat
  doSecurity : Bool
  snLen : Nat
  kRrcInt : Octets 32
  integAlgo : IntegrityAlgorithmId

namespace PdcpEntity

variable (e : PdcpEntity)

/-- The constructor, which leaves the channel and what comes with the security as they are in
memory. -/
def constructed : PdcpEntity :=
  { e with active := false, txCount := 0, doSecurity := false, snLen := 12 }

/-- `init` -/
def init (lcid : Nat) (cnfg : Option PdcpConfig) : PdcpEntity :=
  { e with
    lcid := lcid
    active := true
    txCount := 0
    doSecurity := false
    snLen := if cnfg.bind PdcpConfig.rlcUmPdcpSnSize = some .bits7 then 7 else e.snLen }

/-- `reset`. The line that it writes to `log` is left out: the constructor does not set this
pointer, so the test of `log` in the source does not tell whether `init` has been called. -/
def reset : PdcpEntity := { e with active := false }

/-- `config_security` -/
def configSecurity (kRrcInt : Octets 32) (integAlgo : IntegrityAlgorithmId) : PdcpEntity :=
  { e with doSecurity := true, kRrcInt := kRrcInt, integAlgo := integAlgo }

/-- `integrity_generate`, with the direction uplink. It leaves the bytes of the MAC as they are for
algorithms other than EIA1 and EIA2. -/
def integrityGenerate (F : SecurityFunctions) (integAlgo : IntegrityAlgorithmId) (key : Octets 32)
    (count rbId : Nat) (msg mac : Bytes) : Bytes :=
  match integAlgo with
  | .eia1 => List.ofFn (F.eia1 (Nas.lowKey key) count rbId 0 msg)
  | .eia2 => List.ofFn (F.eia2 (Nas.lowKey key) count rbId 0 msg)
  | .eia0 | .other _ => mac

/-- `write_sdu` of the entity: the PDU for RLC. -/
def writeSdu (F : SecurityFunctions) (sdu : Bytes) : Option (PdcpEntity × Bytes) :=
  if e.lcid = 0 then some (e, sdu)
  else if e.lcid = 1 ∨ e.lcid = 2 then
    (pdcpPackControlPdu e.txCount sdu).map fun pdu =>
      -- The MAC is over everything in front of it, and replaces the four bytes that were packed.
      let n := pdu.length - 4
      let pdu :=
        if e.doSecurity then
          pdu.take n ++ integrityGenerate F e.integAlgo e.kRrcInt e.txCount ((e.lcid + 255) % 256)
            (pdu.take n) (pdu.drop n)
        else pdu
      ({ e with txCount := add32 e.txCount 1 }, pdu)
  else
    some ({ e with txCount := add32 e.txCount 1 },
      if e.snLen = 12 then pdcpPackDataPduLongSn e.txCount sdu
      else pdcpPackDataPduShortSn e.txCount sdu)

end PdcpEntity

/-! ### The bearers -/

/-- `pdcp` -/
structure Pdcp where
  pdcpArray : Nat → PdcpEntity

/-- The calls of RRC and the gateway. -/
inductive PdcpCall where
  | addBearer (lcid : Nat) (cnfg : Option PdcpConfig)
  | writeSdu (lcid : Nat) (sdu : Bytes)
  | configSecurity (lcid : Nat) (kRrcInt : Octets 32) (integAlgo : IntegrityAlgorithmId)
  | reset

namespace Pdcp

variable (p : Pdcp)

/-- The constructor. -/
def constructed : Pdcp := { pdcpArray := fun lcid => (p.pdcpArray lcid).constructed }

/-- `pdcp_array[lcid] = e` -/
def set (lcid : Nat) (e : PdcpEntity) : Pdcp := { pdcpArray := Function.update p.pdcpArray lcid e }

/-- `init` -/
def init : Pdcp := p.set 0 ((p.pdcpArray 0).init 0 none)

/-- `reset` -/
def reset : Pdcp := { pdcpArray := fun lcid => (p.pdcpArray lcid).reset : Pdcp }.init

/-- `valid_lcid` -/
def validLcid (lcid : Nat) : Bool := lcid < nRadioBearers && (p.pdcpArray lcid).active

/-- `add_bearer` -/
def addBearer (lcid : Nat) (cnfg : Option PdcpConfig) : Pdcp :=
  if lcid < nRadioBearers then
    if !(p.pdcpArray lcid).active then p.set lcid ((p.pdcpArray lcid).init lcid cnfg) else p
  else p

/-- A call, with what RLC is given. -/
def call (F : SecurityFunctions) : PdcpCall → Option (Pdcp × List (Nat × Bytes))
  | .addBearer lcid cnfg => some (p.addBearer lcid cnfg, [])
  | .writeSdu lcid sdu =>
    if p.validLcid lcid then
      ((p.pdcpArray lcid).writeSdu F sdu).map fun (e, pdu) => (p.set lcid e, [(e.lcid, pdu)])
    else some (p, [])
  | .configSecurity lcid kRrcInt integAlgo =>
    some (if p.validLcid lcid then p.set lcid ((p.pdcpArray lcid).configSecurity kRrcInt integAlgo)
      else p, [])
  | .reset => some (p.reset, [])

end Pdcp

end SrsUE.Upper
