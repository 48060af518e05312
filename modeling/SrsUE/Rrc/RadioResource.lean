import SrsUE.Lib.BitCodec

/-!
# `SrsUE.Rrc.RadioResource`: the radio resource configuration and its encoding

The information elements of `RadioResourceConfigDedicated`, with the functions of `liblte_rrc.cc`
that write and read them. `liblte_value_2_bits` is `putNat`, and `liblte_bits_2_value` is `getNat`.

A field is as wide as it is on the air. An enumeration is the index of its value, a value that is
written with an offset is an `Offset`, and a member with its `present` flag is an `Option`. The
offsets and the widths are those of the source. The source reads the bits of a message without a
look at its length, so a reader may run into what an earlier message has left in the buffer.
-/

set_option autoImplicit false

namespace SrsUE.Rrc

open SrsUE.Lib

/-! ### Extensions -/

/-- `n` bits that are not used. -/
def skipBits (n : Nat) : BitReader Unit := ⟨fun bits => ((), bits.drop n)⟩

/-- The length in front of a string of bytes. A length in two parts, from 16384 on, counts as
zero. -/
def unpackLength : BitReader Nat := do
  if ← getFlag then
    if ← getFlag then pure 0 else getNat 14
  else getNat 7

/-- The open types of an extension, one for each flag that is set. -/
def skipElements : List Bool → BitReader Unit
  | [] => pure ()
  | flag :: flags => do
    if flag then
      let elemLen ← unpackLength
      skipBits (8 * elemLen)
    skipElements flags

/-- `liblte_rrc_consume_noncrit_extension`. The flags are kept in a `uint32`, and those from the
33rd on are shifted out. -/
def consumeNoncritExtension (ext : Bool) : BitReader Unit := do
  if ext then
    let nElems ← getNat 7
    let flags ← getList getFlag (nElems + 1)
    skipElements (flags.val.take 32)

/-! ### RLC -/

structure UlAmRlc where
  tPollRetx : BitVec 6
  pollPdu : BitVec 3
  pollByte : BitVec 4
  maxRetxThresh : BitVec 3
deriving DecidableEq, Repr

structure DlAmRlc where
  tReordering : BitVec 5
  tStatusProhibit : BitVec 6
deriving DecidableEq, Repr

structure DlUmRlc where
  snFieldLen : BitVec 1
  tReordering : BitVec 5
deriving DecidableEq, Repr

/-- `LIBLTE_RRC_RLC_CONFIG_STRUCT`, by `rlc_mode`. -/
inductive RlcConfig where
  | am (ul : UlAmRlc) (dl : DlAmRlc)
  | umBi (ulSnFieldLen : BitVec 1) (dl : DlUmRlc)
  | umUniUl (ulSnFieldLen : BitVec 1)
  | umUniDl (dl : DlUmRlc)
deriving DecidableEq, Repr

def packUlAmRlc (c : UlAmRlc) : List Bool :=
  putBits c.tPollRetx ++ putBits c.pollPdu ++ putBits c.pollByte ++ putBits c.maxRetxThresh

def unpackUlAmRlc : BitReader UlAmRlc := do
  let tPollRetx ← getBits 6
  let pollPdu ← getBits 3
  let pollByte ← getBits 4
  let maxRetxThresh ← getBits 3
  return { tPollRetx, pollPdu, pollByte, maxRetxThresh }

def packDlAmRlc (c : DlAmRlc) : List Bool := putBits c.tReordering ++ putBits c.tStatusProhibit

def unpackDlAmRlc : BitReader DlAmRlc := do
  let tReordering ← getBits 5
  let tStatusProhibit ← getBits 6
  return { tReordering, tStatusProhibit }

def packDlUmRlc (c : DlUmRlc) : List Bool := putBits c.snFieldLen ++ putBits c.tReordering

def unpackDlUmRlc : BitReader DlUmRlc := do
  let snFieldLen ← getBits 1
  let tReordering ← getBits 5
  return { snFieldLen, tReordering }

/-- `liblte_rrc_pack_rlc_config_ie` -/
def packRlcConfig (c : RlcConfig) : List Bool :=
  putFlag false ++
  match c with
  | .am ul dl => putNat 2 0 ++ packUlAmRlc ul ++ packDlAmRlc dl
  | .umBi ul dl => putNat 2 1 ++ putBits ul ++ packDlUmRlc dl
  | .umUniUl ul => putNat 2 2 ++ putBits ul
  | .umUniDl dl => putNat 2 3 ++ packDlUmRlc dl

/-- `liblte_rrc_unpack_rlc_config_ie` -/
def unpackRlcConfig : BitReader RlcConfig := do
  let ext ← getFlag
  let rlcMode ← getNat 2
  let c ← match rlcMode with
    | 0 => do
      let ul ← unpackUlAmRlc
      let dl ← unpackDlAmRlc
      pure (RlcConfig.am ul dl)
    | 1 => do
      let ul ← getBits 1
      let dl ← unpackDlUmRlc
      pure (.umBi ul dl)
    | 2 => RlcConfig.umUniUl <$> getBits 1
    | _ => RlcConfig.umUniDl <$> unpackDlUmRlc
  consumeNoncritExtension ext
  return c

/-! ### Logical channels and PDCP -/

structure UlSpecificParams where
  logChanGroup : Option (BitVec 2)
  priority : Offset 1 4
  prioritizedBitRate : BitVec 4
  bucketSizeDuration : BitVec 3
deriving DecidableEq, Repr

structure LogicalChannelConfig where
  ulSpecificParams : Option UlSpecificParams
deriving DecidableEq, Repr

def packUlSpecificParams (c : UlSpecificParams) : List Bool :=
  putFlag c.logChanGroup.isSome ++ putOffset c.priority ++ putBits c.prioritizedBitRate
  ++ putBits c.bucketSizeDuration ++ putOpt putBits c.logChanGroup

def unpackUlSpecificParams : BitReader UlSpecificParams := do
  let logChanGroupPresent ← getFlag
  let priority ← getOffset 1 4
  let prioritizedBitRate ← getBits 4
  let bucketSizeDuration ← getBits 3
  let logChanGroup ← getOpt logChanGroupPresent (getBits 2)
  return { logChanGroup, priority, prioritizedBitRate, bucketSizeDuration }

/-- `liblte_rrc_pack_logical_channel_config_ie` -/
def packLogicalChannelConfig (c : LogicalChannelConfig) : List Bool :=
  putFlag false ++ putFlagged packUlSpecificParams c.ulSpecificParams

/-- `liblte_rrc_unpack_logical_channel_config_ie` -/
def unpackLogicalChannelConfig : BitReader LogicalChannelConfig := do
  let ext ← getFlag
  let ulSpecificParams ← getFlagged unpackUlSpecificParams
  consumeNoncritExtension ext
  return { ulSpecificParams }

/-- The header compression of `LIBLTE_RRC_PDCP_CONFIG_STRUCT`. Its nine profiles, from 0001 to 0104,
have one bit each. -/
structure HdrCompression where
  maxCid : Offset 1 14
  profiles : BitVec 9
deriving DecidableEq, Repr

structure PdcpConfig where
  discardTimer : Option (BitVec 3)
  rlcAmStatusReportRequired : Option Bool
  rlcUmPdcpSnSize : Option (BitVec 1)
  hdrCompression : Option HdrCompression
deriving DecidableEq, Repr

def packHdrCompression (c : HdrCompression) : List Bool :=
  putFlag false ++ putOffset c.maxCid ++ putBits c.profiles

def unpackHdrCompression : BitReader HdrCompression := do
  let ext ← getFlag
  let maxCid ← getOffset 1 14
  let profiles ← getBits 9
  consumeNoncritExtension ext
  return { maxCid, profiles }

/-- `liblte_rrc_pack_pdcp_config_ie` -/
def packPdcpConfig (c : PdcpConfig) : List Bool :=
  putFlag false ++ putFlag c.discardTimer.isSome ++ putFlag c.rlcAmStatusReportRequired.isSome
  ++ putFlag c.rlcUmPdcpSnSize.isSome ++ putOpt putBits c.discardTimer
  ++ putOpt putFlag c.rlcAmStatusReportRequired ++ putOpt putBits c.rlcUmPdcpSnSize
  ++ putFlagged packHdrCompression c.hdrCompression

/-- `liblte_rrc_unpack_pdcp_config_ie` -/
def unpackPdcpConfig : BitReader PdcpConfig := do
  let ext ← getFlag
  let discardTimerPresent ← getFlag
  let rlcAmStatusReportRequiredPresent ← getFlag
  let rlcUmPdcpSnSizePresent ← getFlag
  let discardTimer ← getOpt discardTimerPresent (getBits 3)
  let rlcAmStatusReportRequired ← getOpt rlcAmStatusReportRequiredPresent getFlag
  let rlcUmPdcpSnSize ← getOpt rlcUmPdcpSnSizePresent (getBits 1)
  let hdrCompression ← getFlagged unpackHdrCompression
  consumeNoncritExtension ext
  return { discardTimer, rlcAmStatusReportRequired, rlcUmPdcpSnSize, hdrCompression }

end SrsUE.Rrc
