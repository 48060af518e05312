import SrsUE.Rrc.RrConfig

/-!
# `SrsUE.Proofs.Rrc.RadioResourceSize`: a configuration has room in a message

How many bits each information element takes at most, from the parts to the whole. The longest
configuration has far less than the bits that a message may have.
-/

set_option autoImplicit false

namespace SrsUE.Rrc

open SrsUE.Lib

/-- A field takes its bits. -/
theorem length_putBits_le {k : Nat} (v : BitVec k) : (putBits v).length ≤ k :=
  Nat.le_of_eq (length_putBits v)

/-- A field with an offset takes its bits. -/
theorem length_putOffset_le {lo : Int} {k : Nat} (a : Offset lo k) : (putOffset a).length ≤ k :=
  Nat.le_of_eq (length_putOffset a)

/-! ### RLC, logical channels and PDCP -/

/-- RLC-Config is longest in AM. -/
theorem length_packRlcConfig_le (c : RlcConfig) : (packRlcConfig c).length ≤ 30 := by
  cases c with
  | am ul dl => simp [packRlcConfig, packUlAmRlc, packDlAmRlc]
  | umBi ul dl => simp [packRlcConfig, packDlUmRlc]
  | umUniUl ul => simp [packRlcConfig]
  | umUniDl dl => simp [packRlcConfig, packDlUmRlc]

/-- The uplink parameters of a logical channel, with the group. -/
theorem length_packUlSpecificParams_le (c : UlSpecificParams) :
    (packUlSpecificParams c).length ≤ 14 := by
  have hgroup := length_putOpt_le length_putBits_le c.logChanGroup
  simp only [packUlSpecificParams, List.length_append, length_putFlag, length_putOffset,
    length_putBits]
  omega

/-- LogicalChannelConfig, with those parameters. -/
theorem length_packLogicalChannelConfig_le (c : LogicalChannelConfig) :
    (packLogicalChannelConfig c).length ≤ 16 := by
  have hparams := length_putFlagged_le length_packUlSpecificParams_le c.ulSpecificParams
  simp only [packLogicalChannelConfig, List.length_append, length_putFlag]
  omega

/-- The header compression profiles. -/
theorem length_packHdrCompression_le (c : HdrCompression) : (packHdrCompression c).length ≤ 24 := by
  simp [packHdrCompression]

/-- PDCP-Config, with all optional fields and the profiles. -/
theorem length_packPdcpConfig_le (c : PdcpConfig) : (packPdcpConfig c).length ≤ 34 := by
  have hdiscard := length_putOpt_le length_putBits_le c.discardTimer
  have hreport :=
    length_putOpt_le (fun b => Nat.le_of_eq (length_putFlag b)) c.rlcAmStatusReportRequired
  have hsize := length_putOpt_le length_putBits_le c.rlcUmPdcpSnSize
  have hhdr := length_putFlagged_le length_packHdrCompression_le c.hdrCompression
  simp only [packPdcpConfig, List.length_append, length_putFlag]
  omega

/-! ### The physical layer -/

/-- PUCCH-ConfigDedicated, with the repetition and the TDD mode. -/
theorem length_packPucchConfigDedicated_le (c : PucchConfigDedicated) :
    (packPucchConfigDedicated c).length ≤ 16 := by
  have hlen : ∀ r : AckNackRepetition, (packAckNackRepetition r).length ≤ 13 := fun r => by
    simp [packAckNackRepetition]
  have hrepetition := length_putFlagged_le hlen c.ackNackRepetition
  have hmode := length_putOpt_le length_putBits_le c.tddAckNackFeedbackMode
  simp only [packPucchConfigDedicated, List.length_append, length_putFlag]
  omega

/-- PUSCH-ConfigDedicated. -/
theorem length_packPuschConfigDedicated_le (c : PuschConfigDedicated) :
    (packPuschConfigDedicated c).length ≤ 12 := by
  simp [packPuschConfigDedicated]

/-- UplinkPowerControlDedicated, with the filter coefficient. -/
theorem length_packUlPowerControlDedicated_le (c : UlPowerControlDedicated) :
    (packUlPowerControlDedicated c).length ≤ 20 := by
  have hlen : ∀ f, (packFilterCoefficient f).length ≤ 5 := fun f => by simp [packFilterCoefficient]
  have hfilter := length_putOpt_le hlen c.filterCoeff
  simp only [packUlPowerControlDedicated, List.length_append, length_putFlag, length_putOffset,
    length_putBits]
  omega

/-- TPC-PDCCH-Config, with the longer index. -/
theorem length_packTpcPdcchConfig_le (c : TpcPdcchConfig) : (packTpcPdcchConfig c).length ≤ 22 := by
  have hidx : (packTpcIdx c.tpcIdx).length ≤ 6 := by
    cases c.tpcIdx with
    | format3 idx => simp [packTpcIdx]
    | format3A idx => simp [packTpcIdx]
  simp only [packTpcPdcchConfig, List.length_append, length_putBits]
  omega

/-- The periodic CQI report, with the subband and the rank report. -/
theorem length_packCqiReportPeriodic_le (c : CqiReportPeriodic) :
    (packCqiReportPeriodic c).length ≤ 36 := by
  have hk := length_putFlagged_le length_putOffset_le c.subbandK
  have hri := length_putOpt_le length_putBits_le c.riCnfgIdx
  simp only [packCqiReportPeriodic, List.length_append, length_putFlag, length_putBits]
  omega

/-- CQI-ReportConfig, with both kinds of report. -/
theorem length_packCqiReportConfig_le (c : CqiReportConfig) :
    (packCqiReportConfig c).length ≤ 45 := by
  have hmode := length_putOpt_le length_putBits_le c.reportModeAperiodic
  have hperiodic :=
    length_putOpt_le (length_putFlagged_le length_packCqiReportPeriodic_le) c.reportPeriodic
  simp only [packCqiReportConfig, List.length_append, length_putFlag, length_putOffset]
  omega

/-- The SRS configuration. -/
theorem length_packSrsUlConfigDedicated_le (c : SrsUlConfigDedicated) :
    (packSrsUlConfigDedicated c).length ≤ 24 := by
  simp [packSrsUlConfigDedicated]

/-- No codebook restriction has more than 64 bits. -/
theorem codebookWidth_le (choice : BitVec 3) : codebookWidth choice ≤ 64 := by
  revert choice
  decide

/-- The codebook restriction behind its choice. -/
theorem length_packCodebookSubsetRestriction_le (c : CodebookSubsetRestriction) :
    (packCodebookSubsetRestriction c).length ≤ 67 := by
  have hwidth := codebookWidth_le c.choice
  rw [packCodebookSubsetRestriction]
  split
  · simp
  · simp only [List.length_append, length_putBits, length_putNat]
    omega

/-- AntennaInfoDedicated, with the codebook restriction and the antenna selection. -/
theorem length_packAntennaInfoDedicated_le (c : AntennaInfoDedicated) :
    (packAntennaInfoDedicated c).length ≤ 73 := by
  have hcodebook :=
    length_putOpt_le length_packCodebookSubsetRestriction_le c.codebookSubsetRestriction
  have hselection := length_putFlagged_le length_putBits_le c.ueTxAntennaSelection
  simp only [packAntennaInfoDedicated, List.length_append, length_putFlag, length_putBits]
  omega

/-- SchedulingRequestConfig. -/
theorem length_packSchedulingRequestConfig_le (c : SchedulingRequestConfig) :
    (packSchedulingRequestConfig c).length ≤ 22 := by
  simp [packSchedulingRequestConfig]

/-- PhysicalConfigDedicated, with all its elements. -/
theorem length_packPhysicalConfigDedicated_le (c : PhysicalConfigDedicated) :
    (packPhysicalConfigDedicated c).length ≤ 275 := by
  have hpdsch := length_putOpt_le length_putBits_le c.pdschCnfgDed
  have hpucch := length_putOpt_le length_packPucchConfigDedicated_le c.pucchCnfgDed
  have hpusch := length_putOpt_le length_packPuschConfigDedicated_le c.puschCnfgDed
  have hpower := length_putOpt_le length_packUlPowerControlDedicated_le c.ulPwrCtrlDed
  have htpcPucch :=
    length_putOpt_le (length_putFlagged_le length_packTpcPdcchConfig_le) c.tpcPdcchCnfgPucch
  have htpcPusch :=
    length_putOpt_le (length_putFlagged_le length_packTpcPdcchConfig_le) c.tpcPdcchCnfgPusch
  have hcqi := length_putOpt_le length_packCqiReportConfig_le c.cqiReportCnfg
  have hsrs :=
    length_putOpt_le (length_putFlagged_le length_packSrsUlConfigDedicated_le) c.srsUlCnfgDed
  have hantenna :=
    length_putOpt_le (length_putOrDefault_le length_packAntennaInfoDedicated_le) c.antennaInfo
  have hsr :=
    length_putOpt_le (length_putFlagged_le length_packSchedulingRequestConfig_le) c.schedRequestCnfg
  unfold packPhysicalConfigDedicated
  simp only [List.length_append, length_putFlag]
  omega

/-! ### MAC and semi-persistent scheduling -/

/-- The UL-SCH part of MAC-MainConfig. -/
theorem length_packUlschConfig_le (c : UlschConfig) : (packUlschConfig c).length ≤ 14 := by
  have hharq := length_putOpt_le length_putBits_le c.maxHarqTx
  have hbsr := length_putOpt_le length_putBits_le c.periodicBsrTimer
  simp only [packUlschConfig, List.length_append, length_putFlag, length_putBits]
  omega

/-- No offset of a long DRX cycle has more than 12 bits. -/
theorem longDrxWidth_le (choice : BitVec 4) : longDrxWidth choice ≤ 12 := by
  revert choice
  decide

/-- DRX-Config, with the short cycle. -/
theorem length_packDrxConfig_le (c : DrxConfig) : (packDrxConfig c).length ≤ 37 := by
  have hwidth := longDrxWidth_le c.longDrxCycleStartOffset.choice
  have hlen : ∀ s : ShortDrx, (packShortDrx s).length ≤ 8 := fun s => by simp [packShortDrx]
  have hshort := length_putOpt_le hlen c.shortDrx
  simp only [packDrxConfig, packLongDrxCycleStartOffset, List.length_append, length_putFlag,
    length_putBits, length_putNat]
  omega

/-- PHR-Config. -/
theorem length_packPhrConfig_le (c : PhrConfig) : (packPhrConfig c).length ≤ 8 := by
  simp [packPhrConfig]

/-- MAC-MainConfig, with its three parts. -/
theorem length_packMacMainConfig_le (c : MacMainConfig) : (packMacMainConfig c).length ≤ 68 := by
  have hulsch := length_putOpt_le length_packUlschConfig_le c.ulschCnfg
  have hdrx := length_putOpt_le (length_putFlagged_le length_packDrxConfig_le) c.drxCnfg
  have hphr := length_putOpt_le (length_putFlagged_le length_packPhrConfig_le) c.phrCnfg
  simp only [packMacMainConfig, List.length_append, length_putFlag, length_putBits]
  omega

/-- The downlink part of SPS-Config, with a full list. -/
theorem length_packSpsConfigDl_le (c : SpsConfigDl) : (packSpsConfigDl c).length ≤ 54 := by
  have hlist := length_putCounted_le (k := 2) length_putBits_le c.n1PucchAnPersistentList
  have hmax : n1PucchListSize = 4 := rfl
  simp only [packSpsConfigDl, List.length_append, length_putFlag, length_putBits, length_putOffset]
  omega

/-- The uplink part of SPS-Config, with the power offsets. -/
theorem length_packSpsConfigUl_le (c : SpsConfigUl) : (packSpsConfigUl c).length ≤ 22 := by
  have hlen : ∀ p : P0Persistent, (packP0Persistent p).length ≤ 12 :=
    fun p => by simp [packP0Persistent]
  have hp0 := length_putOpt_le hlen c.p0Persistent
  have htwo := length_putOpt_le length_putBits_le c.twoIntervalsCnfg
  simp only [packSpsConfigUl, List.length_append, length_putFlag, length_putBits]
  omega

/-- SPS-Config, with the RNTI and both parts. -/
theorem length_packSpsConfig_le (c : SpsConfig) : (packSpsConfig c).length ≤ 97 := by
  have hrnti := length_putOpt_le length_putBits_le c.spsCRnti
  have hdl := length_putOpt_le (length_putFlagged_le length_packSpsConfigDl_le) c.spsCnfgDl
  have hul := length_putOpt_le (length_putFlagged_le length_packSpsConfigUl_le) c.spsCnfgUl
  simp only [packSpsConfig, List.length_append, length_putFlag]
  omega

/-! ### Radio bearers -/

/-- A signalling bearer with explicit configurations. -/
theorem length_packSrbToAddMod_le (c : SrbToAddMod) : (packSrbToAddMod c).length ≤ 52 := by
  have hrlc := length_putOpt_le (length_putOrDefault_le length_packRlcConfig_le) c.rlcCnfg
  have hlc := length_putOpt_le (length_putOrDefault_le length_packLogicalChannelConfig_le) c.lcCnfg
  simp only [packSrbToAddMod, List.length_append, length_putFlag, length_putOffset]
  omega

/-- A data bearer with all optional fields. -/
theorem length_packDrbToAddMod_le (c : DrbToAddMod) : (packDrbToAddMod c).length ≤ 98 := by
  have heps := length_putOpt_le length_putBits_le c.epsBearerId
  have hpdcp := length_putOpt_le length_packPdcpConfig_le c.pdcpCnfg
  have hrlc := length_putOpt_le length_packRlcConfig_le c.rlcCnfg
  have hlcId := length_putOpt_le length_putOffset_le c.lcId
  have hlc := length_putOpt_le length_packLogicalChannelConfig_le c.lcCnfg
  simp only [packDrbToAddMod, List.length_append, length_putFlag, length_putOffset]
  omega

/-- The extension with the timers and constants. -/
theorem length_packRlfExtension_le (c : RrConfigDedicated) : (packRlfExtension c).length ≤ 18 := by
  have hlen : ∀ r : RlfTimersAndConstants, (packRlfTimersAndConstants r).length ≤ 17 := fun r => by
    simp [packRlfTimersAndConstants]
  exact length_putFlagged_le hlen c.rlfTimersAndConstants

/-- The whole configuration, with full bearer lists. -/
theorem length_packRrConfigDedicated_le (c : RrConfigDedicated) :
    (packRrConfigDedicated c).length ≤ 2300 := by
  have hmax : maxDrb = 11 := rfl
  have hsrb :=
    length_putOpt_le (length_putCounted_le (k := 1) length_packSrbToAddMod_le) c.srbToAddModList
  have hdrb :=
    length_putOpt_le (length_putCounted_le (k := 4) length_packDrbToAddMod_le) c.drbToAddModList
  have hrelease :=
    length_putOpt_le (length_putCounted_le (k := 4) length_putOffset_le) c.drbToReleaseList
  have hmac := length_putOpt_le (length_putOrDefault_le length_packMacMainConfig_le) c.macMainCnfg
  have hsps := length_putOpt_le length_packSpsConfig_le c.spsCnfg
  have hphy := length_putOpt_le length_packPhysicalConfigDedicated_le c.phyCnfgDed
  have hrlf := length_packRlfExtension_le c
  simp only [packRrConfigDedicated, List.length_append, length_putFlag]
  omega

end SrsUE.Rrc
