import SrsUE.Rrc.RrConfig

/-!
# `SrsUE.Proofs.Rrc.RadioResourceCodec`: what is written of a configuration is read back

One lemma for each information element, from the parts to the whole. Each holds with any bits behind
the element. Only the whole configuration does not come back as it was:
`unpackRrConfigDedicated_pack` says what the reader makes of it, and where it stops.
-/

set_option autoImplicit false

namespace SrsUE.Rrc

open SrsUE.Lib

variable (rest : List Bool)

/-- Without an extension nothing is skipped. -/
@[simp] theorem consumeNoncritExtension_false (bits : List Bool) :
    (consumeNoncritExtension false).run bits = ((), bits) := rfl

/-- The two words of a value make up the value. -/
theorem high_or_low (k v : Nat) : v >>> k <<< k ||| v % 2 ^ k = v := by
  rw [← Nat.shiftLeft_add_eq_or_of_lt (Nat.mod_lt _ (Nat.two_pow_pos k)), Nat.shiftLeft_eq,
    Nat.shiftRight_eq_div_pow, Nat.mul_comm, Nat.div_add_mod]

/-! ### RLC, logical channels and PDCP -/

/-- The uplink AM parameters, four enumerated fields. -/
@[simp] theorem unpackUlAmRlc_pack (c : UlAmRlc) :
    unpackUlAmRlc.run (packUlAmRlc c ++ rest) = (c, rest) := by
  simp [unpackUlAmRlc, packUlAmRlc]

/-- The downlink AM parameters, two enumerated fields. -/
@[simp] theorem unpackDlAmRlc_pack (c : DlAmRlc) :
    unpackDlAmRlc.run (packDlAmRlc c ++ rest) = (c, rest) := by
  simp [unpackDlAmRlc, packDlAmRlc]

/-- The downlink UM parameters, the length of the sequence number and a timer. -/
@[simp] theorem unpackDlUmRlc_pack (c : DlUmRlc) :
    unpackDlUmRlc.run (packDlUmRlc c ++ rest) = (c, rest) := by
  simp [unpackDlUmRlc, packDlUmRlc]

/-- RLC-Config, a choice of four modes. -/
@[simp] theorem unpackRlcConfig_pack (c : RlcConfig) :
    unpackRlcConfig.run (packRlcConfig c ++ rest) = (c, rest) := by
  cases c with
  | am ul dl => simp [unpackRlcConfig, packRlcConfig]
  | umBi ul dl => simp [unpackRlcConfig, packRlcConfig]
  | umUniUl ul => simp [unpackRlcConfig, packRlcConfig]
  | umUniDl dl => simp [unpackRlcConfig, packRlcConfig]

/-- The uplink parameters of a logical channel, with an optional group. -/
@[simp] theorem unpackUlSpecificParams_pack (c : UlSpecificParams) :
    unpackUlSpecificParams.run (packUlSpecificParams c ++ rest) = (c, rest) := by
  simp [unpackUlSpecificParams, packUlSpecificParams]

/-- LogicalChannelConfig, with an extension flag. -/
@[simp] theorem unpackLogicalChannelConfig_pack (c : LogicalChannelConfig) :
    unpackLogicalChannelConfig.run (packLogicalChannelConfig c ++ rest) = (c, rest) := by
  simp [unpackLogicalChannelConfig, packLogicalChannelConfig]

/-- The header compression profiles, nine flags behind the largest context identity. -/
@[simp] theorem unpackHdrCompression_pack (c : HdrCompression) :
    unpackHdrCompression.run (packHdrCompression c ++ rest) = (c, rest) := by
  simp [unpackHdrCompression, packHdrCompression]

/-- PDCP-Config, three optional fields and a choice of compression. -/
@[simp] theorem unpackPdcpConfig_pack (c : PdcpConfig) :
    unpackPdcpConfig.run (packPdcpConfig c ++ rest) = (c, rest) := by
  simp only [unpackPdcpConfig, packPdcpConfig, List.append_assoc, BitReader.run_bind,
    BitReader.run_pure, getFlag_putFlag, getOpt_putOpt, getOpt_putOpt getFlag_putFlag,
    getFlagged_putFlagged, getBits_putBits, unpackHdrCompression_pack,
    consumeNoncritExtension_false, implies_true]

/-! ### The physical layer -/

/-- The ACK/NACK repetition, a factor and a resource. -/
@[simp] theorem unpackAckNackRepetition_pack (c : AckNackRepetition) :
    unpackAckNackRepetition.run (packAckNackRepetition c ++ rest) = (c, rest) := by
  simp [unpackAckNackRepetition, packAckNackRepetition]

/-- PUCCH-ConfigDedicated, with the optional TDD mode behind the repetition. -/
@[simp] theorem unpackPucchConfigDedicated_pack (c : PucchConfigDedicated) :
    unpackPucchConfigDedicated.run (packPucchConfigDedicated c ++ rest) = (c, rest) := by
  simp [unpackPucchConfigDedicated, packPucchConfigDedicated]

/-- PUSCH-ConfigDedicated, three offsets. -/
@[simp] theorem unpackPuschConfigDedicated_pack (c : PuschConfigDedicated) :
    unpackPuschConfigDedicated.run (packPuschConfigDedicated c ++ rest) = (c, rest) := by
  simp [unpackPuschConfigDedicated, packPuschConfigDedicated]

/-- The filter coefficient, behind its extension flag. -/
@[simp] theorem unpackFilterCoefficient_pack (c : BitVec 4) :
    unpackFilterCoefficient.run (packFilterCoefficient c ++ rest) = (c, rest) := by
  simp [unpackFilterCoefficient, packFilterCoefficient]

/-- UplinkPowerControlDedicated, with signed offsets and an optional filter. -/
@[simp] theorem unpackUlPowerControlDedicated_pack (c : UlPowerControlDedicated) :
    unpackUlPowerControlDedicated.run (packUlPowerControlDedicated c ++ rest) = (c, rest) := by
  simp [unpackUlPowerControlDedicated, packUlPowerControlDedicated]

/-- The TPC index, a choice of two formats with ranges of their own. -/
@[simp] theorem unpackTpcIdx_pack (c : TpcIdx) :
    unpackTpcIdx.run (packTpcIdx c ++ rest) = (c, rest) := by
  cases c with
  | format3 idx => simp [unpackTpcIdx, packTpcIdx]
  | format3A idx => simp [unpackTpcIdx, packTpcIdx]

/-- TPC-PDCCH-Config, an RNTI and an index. -/
@[simp] theorem unpackTpcPdcchConfig_pack (c : TpcPdcchConfig) :
    unpackTpcPdcchConfig.run (packTpcPdcchConfig c ++ rest) = (c, rest) := by
  simp [unpackTpcPdcchConfig, packTpcPdcchConfig]

/-- The periodic CQI report. -/
@[simp] theorem unpackCqiReportPeriodic_pack (c : CqiReportPeriodic) :
    unpackCqiReportPeriodic.run (packCqiReportPeriodic c ++ rest) = (c, rest) := by
  simp [unpackCqiReportPeriodic, packCqiReportPeriodic]

/-- CQI-ReportConfig, an optional mode and an optional periodic report. -/
@[simp] theorem unpackCqiReportConfig_pack (c : CqiReportConfig) :
    unpackCqiReportConfig.run (packCqiReportConfig c ++ rest) = (c, rest) := by
  simp [unpackCqiReportConfig, packCqiReportConfig]

/-- The SRS configuration, seven fields. -/
@[simp] theorem unpackSrsUlConfigDedicated_pack (c : SrsUlConfigDedicated) :
    unpackSrsUlConfigDedicated.run (packSrsUlConfigDedicated c ++ rest) = (c, rest) := by
  simp [unpackSrsUlConfigDedicated, packSrsUlConfigDedicated]

/-- The codebook restriction, whose width depends on the choice. The longest one is written as two
words. -/
@[simp] theorem unpackCodebookSubsetRestriction_pack (c : CodebookSubsetRestriction) :
    unpackCodebookSubsetRestriction.run (packCodebookSubsetRestriction c ++ rest) = (c, rest) := by
  obtain ⟨choice, value, hlt⟩ := c
  unfold unpackCodebookSubsetRestriction packCodebookSubsetRestriction
  by_cases hchoice : choice.toNat = 3
  · have hwidth : codebookWidth choice = 64 := by simp [codebookWidth, hchoice]
    rw [hwidth] at hlt
    have hhigh : (value >>> 32) % 2 ^ 32 = value >>> 32 := by
      rw [Nat.shiftRight_eq_div_pow]
      exact Nat.mod_eq_of_lt (Nat.div_lt_of_lt_mul hlt)
    have hword : ((value >>> 32) % 2 ^ 32) <<< 32 ||| value % 2 ^ 32 = value := by
      rw [hhigh, high_or_low]
    have hmod := Nat.mod_eq_of_lt hlt
    simp only [Nat.reducePow] at hword hmod
    simp [hchoice, hwidth, hword, hmod]
  · simp [hchoice, Nat.mod_eq_of_lt hlt]

/-- AntennaInfoDedicated, with the optional codebook restriction. -/
@[simp] theorem unpackAntennaInfoDedicated_pack (c : AntennaInfoDedicated) :
    unpackAntennaInfoDedicated.run (packAntennaInfoDedicated c ++ rest) = (c, rest) := by
  simp [unpackAntennaInfoDedicated, packAntennaInfoDedicated]

/-- SchedulingRequestConfig, three fields. -/
@[simp] theorem unpackSchedulingRequestConfig_pack (c : SchedulingRequestConfig) :
    unpackSchedulingRequestConfig.run (packSchedulingRequestConfig c ++ rest) = (c, rest) := by
  simp [unpackSchedulingRequestConfig, packSchedulingRequestConfig]

/-- PhysicalConfigDedicated: eleven flags, and then the elements that are there. -/
@[simp] theorem unpackPhysicalConfigDedicated_pack (c : PhysicalConfigDedicated) :
    unpackPhysicalConfigDedicated.run (packPhysicalConfigDedicated c ++ rest) = (c, rest) := by
  unfold unpackPhysicalConfigDedicated packPhysicalConfigDedicated
  simp only [List.append_assoc, BitReader.run_bind, BitReader.run_pure, getFlag_putFlag,
    getOpt_putOpt, getFlagged_putFlagged, getOrDefault_putOrDefault, getBits_putBits,
    unpackPucchConfigDedicated_pack, unpackPuschConfigDedicated_pack,
    unpackUlPowerControlDedicated_pack, unpackTpcPdcchConfig_pack, unpackCqiReportConfig_pack,
    unpackSrsUlConfigDedicated_pack, unpackAntennaInfoDedicated_pack,
    unpackSchedulingRequestConfig_pack, consumeNoncritExtension_false, implies_true]

/-! ### MAC and semi-persistent scheduling -/

/-- The UL-SCH part of MAC-MainConfig. -/
@[simp] theorem unpackUlschConfig_pack (c : UlschConfig) :
    unpackUlschConfig.run (packUlschConfig c ++ rest) = (c, rest) := by
  simp [unpackUlschConfig, packUlschConfig]

/-- The long DRX cycle, whose offset has a width that depends on the choice. -/
@[simp] theorem unpackLongDrxCycleStartOffset_pack (c : LongDrxCycleStartOffset) :
    unpackLongDrxCycleStartOffset.run (packLongDrxCycleStartOffset c ++ rest) = (c, rest) := by
  simp [unpackLongDrxCycleStartOffset, packLongDrxCycleStartOffset, Nat.mod_eq_of_lt c.lt]

/-- The short DRX cycle and its timer. -/
@[simp] theorem unpackShortDrx_pack (c : ShortDrx) :
    unpackShortDrx.run (packShortDrx c ++ rest) = (c, rest) := by
  simp [unpackShortDrx, packShortDrx]

/-- DRX-Config, with the optional short cycle. -/
@[simp] theorem unpackDrxConfig_pack (c : DrxConfig) :
    unpackDrxConfig.run (packDrxConfig c ++ rest) = (c, rest) := by
  simp [unpackDrxConfig, packDrxConfig]

/-- PHR-Config, three fields. -/
@[simp] theorem unpackPhrConfig_pack (c : PhrConfig) :
    unpackPhrConfig.run (packPhrConfig c ++ rest) = (c, rest) := by
  simp [unpackPhrConfig, packPhrConfig]

/-- MAC-MainConfig, its three optional parts around the time alignment timer. -/
@[simp] theorem unpackMacMainConfig_pack (c : MacMainConfig) :
    unpackMacMainConfig.run (packMacMainConfig c ++ rest) = (c, rest) := by
  simp [unpackMacMainConfig, packMacMainConfig]

/-- The downlink part of SPS-Config, with a counted list of resources. -/
@[simp] theorem unpackSpsConfigDl_pack (c : SpsConfigDl) :
    unpackSpsConfigDl.run (packSpsConfigDl c ++ rest) = (c, rest) := by
  have hsize : n1PucchListSize ≤ 4 := by decide
  simp [unpackSpsConfigDl, packSpsConfigDl, hsize]

/-- The two persistent power offsets. -/
@[simp] theorem unpackP0Persistent_pack (c : P0Persistent) :
    unpackP0Persistent.run (packP0Persistent c ++ rest) = (c, rest) := by
  simp [unpackP0Persistent, packP0Persistent]

/-- The uplink part of SPS-Config. -/
@[simp] theorem unpackSpsConfigUl_pack (c : SpsConfigUl) :
    unpackSpsConfigUl.run (packSpsConfigUl c ++ rest) = (c, rest) := by
  simp [unpackSpsConfigUl, packSpsConfigUl]

/-- SPS-Config, an optional RNTI and its two optional parts. -/
@[simp] theorem unpackSpsConfig_pack (c : SpsConfig) :
    unpackSpsConfig.run (packSpsConfig c ++ rest) = (c, rest) := by
  simp [unpackSpsConfig, packSpsConfig]

/-! ### Radio bearers -/

/-- A signalling bearer. Its RLC and logical channel configurations are explicit or the default
ones. -/
@[simp] theorem unpackSrbToAddMod_pack (c : SrbToAddMod) :
    unpackSrbToAddMod.run (packSrbToAddMod c ++ rest) = (c, rest) := by
  simp [unpackSrbToAddMod, packSrbToAddMod]

/-- A data bearer, with five optional fields. -/
@[simp] theorem unpackDrbToAddMod_pack (c : DrbToAddMod) :
    unpackDrbToAddMod.run (packDrbToAddMod c ++ rest) = (c, rest) := by
  simp [unpackDrbToAddMod, packDrbToAddMod]

/-- What the reader makes of a configuration: a list that is not there is the one of before. It then
takes the flag of the extension for the end, or skips an extension that is not one. -/
theorem unpackRrConfigDedicated_pack (old c : RrConfigDedicated) :
    (unpackRrConfigDedicated old).run (packRrConfigDedicated c ++ rest)
      = ({ c with
            srbToAddModList := c.srbToAddModList <|> old.srbToAddModList
            drbToAddModList := c.drbToAddModList <|> old.drbToAddModList
            drbToReleaseList := c.drbToReleaseList <|> old.drbToReleaseList
            rlfTimersAndConstants := old.rlfTimersAndConstants },
          ((consumeNoncritExtension c.rlfTimersAndConstants.isSome).run (packRlfExtension c ++
          rest)).2) := by
  have htwo : 2 ≤ 2 ^ 1 := by decide
  have hdrb : maxDrb ≤ 2 ^ 4 := by decide
  simp only [unpackRrConfigDedicated, packRrConfigDedicated, List.append_assoc, BitReader.run_bind,
    BitReader.run_pure, getFlag_putFlag, getOpt_putOpt, getOrDefault_putOrDefault,
    getCounted_putCounted,
    htwo, hdrb, getOffset_putOffset, unpackSrbToAddMod_pack, unpackDrbToAddMod_pack,
    unpackMacMainConfig_pack,
    unpackSpsConfig_pack, unpackPhysicalConfigDedicated_pack, implies_true]

end SrsUE.Rrc
