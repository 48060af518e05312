import SrsUE.Rrc.RadioResource

/-!
# `SrsUE.Rrc.PhysicalConfig`: the dedicated physical layer configuration and its encoding

`LIBLTE_RRC_PHYSICAL_CONFIG_DEDICATED_STRUCT` with its parts, in the order in which they are
written. A part with a `setup_present` flag of its own has `none` for "release".
-/

set_option autoImplicit false

namespace SrsUE.Rrc

open SrsUE.Lib

/-! ### PUCCH, PUSCH and power control -/

structure AckNackRepetition where
  factor : BitVec 2
  n1PucchAn : BitVec 11
deriving DecidableEq, Repr

structure PucchConfigDedicated where
  ackNackRepetition : Option AckNackRepetition
  tddAckNackFeedbackMode : Option (BitVec 1)
deriving DecidableEq, Repr

structure PuschConfigDedicated where
  betaOffsetAckIdx : BitVec 4
  betaOffsetRiIdx : BitVec 4
  betaOffsetCqiIdx : BitVec 4
deriving DecidableEq, Repr

structure UlPowerControlDedicated where
  p0UePusch : Offset (-8) 4
  deltaMcsEn : BitVec 1
  accumulationEn : Bool
  p0UePucch : Offset (-8) 4
  pSrsOffset : BitVec 4
  filterCoeff : Option (BitVec 4)
deriving DecidableEq, Repr

def packAckNackRepetition (c : AckNackRepetition) : List Bool :=
  putBits c.factor ++ putBits c.n1PucchAn

def unpackAckNackRepetition : BitReader AckNackRepetition := do
  let factor ← getBits 2
  let n1PucchAn ← getBits 11
  return { factor, n1PucchAn }

/-- `liblte_rrc_pack_pucch_config_dedicated_ie` -/
def packPucchConfigDedicated (c : PucchConfigDedicated) : List Bool :=
  putFlag c.tddAckNackFeedbackMode.isSome ++ putFlagged packAckNackRepetition c.ackNackRepetition
  ++ putOpt putBits c.tddAckNackFeedbackMode

/-- `liblte_rrc_unpack_pucch_config_dedicated_ie` -/
def unpackPucchConfigDedicated : BitReader PucchConfigDedicated := do
  let tddAckNackFeedbackModePresent ← getFlag
  let ackNackRepetition ← getFlagged unpackAckNackRepetition
  let tddAckNackFeedbackMode ← getOpt tddAckNackFeedbackModePresent (getBits 1)
  return { ackNackRepetition, tddAckNackFeedbackMode }

/-- `liblte_rrc_pack_pusch_config_dedicated_ie` -/
def packPuschConfigDedicated (c : PuschConfigDedicated) : List Bool :=
  putBits c.betaOffsetAckIdx ++ putBits c.betaOffsetRiIdx ++ putBits c.betaOffsetCqiIdx

/-- `liblte_rrc_unpack_pusch_config_dedicated_ie` -/
def unpackPuschConfigDedicated : BitReader PuschConfigDedicated := do
  let betaOffsetAckIdx ← getBits 4
  let betaOffsetRiIdx ← getBits 4
  let betaOffsetCqiIdx ← getBits 4
  return { betaOffsetAckIdx, betaOffsetRiIdx, betaOffsetCqiIdx }

/-- `liblte_rrc_pack_filter_coefficient_ie` -/
def packFilterCoefficient (c : BitVec 4) : List Bool := putFlag false ++ putBits c

/-- `liblte_rrc_unpack_filter_coefficient_ie` -/
def unpackFilterCoefficient : BitReader (BitVec 4) := do
  let ext ← getFlag
  let c ← getBits 4
  consumeNoncritExtension ext
  return c

/-- `liblte_rrc_pack_ul_power_control_dedicated_ie` -/
def packUlPowerControlDedicated (c : UlPowerControlDedicated) : List Bool :=
  putFlag c.filterCoeff.isSome ++ putOffset c.p0UePusch ++ putBits c.deltaMcsEn ++
    putFlag c.accumulationEn
  ++ putOffset c.p0UePucch ++ putBits c.pSrsOffset ++ putOpt packFilterCoefficient c.filterCoeff

/-- `liblte_rrc_unpack_ul_power_control_dedicated_ie` -/
def unpackUlPowerControlDedicated : BitReader UlPowerControlDedicated := do
  let filterCoeffPresent ← getFlag
  let p0UePusch ← getOffset (-8) 4
  let deltaMcsEn ← getBits 1
  let accumulationEn ← getFlag
  let p0UePucch ← getOffset (-8) 4
  let pSrsOffset ← getBits 4
  let filterCoeff ← getOpt filterCoeffPresent unpackFilterCoefficient
  return { p0UePusch, deltaMcsEn, accumulationEn, p0UePucch, pSrsOffset, filterCoeff }

/-! ### TPC commands -/

/-- `tpc_idx` with its `tpc_idx_choice`. -/
inductive TpcIdx where
  | format3 (idx : Offset 1 4)
  | format3A (idx : Offset 1 5)
deriving DecidableEq, Repr

structure TpcPdcchConfig where
  tpcRnti : BitVec 16
  tpcIdx : TpcIdx
deriving DecidableEq, Repr

def packTpcIdx : TpcIdx → List Bool
  | .format3 idx => putFlag false ++ putOffset idx
  | .format3A idx => putFlag true ++ putOffset idx

def unpackTpcIdx : BitReader TpcIdx := do
  if ← getFlag then
    TpcIdx.format3A <$> getOffset 1 5
  else
    TpcIdx.format3 <$> getOffset 1 4

/-- The setup part of `liblte_rrc_pack_tpc_pdcch_config_ie`. -/
def packTpcPdcchConfig (c : TpcPdcchConfig) : List Bool := putBits c.tpcRnti ++ packTpcIdx c.tpcIdx

/-- The setup part of `liblte_rrc_unpack_tpc_pdcch_config_ie`. -/
def unpackTpcPdcchConfig : BitReader TpcPdcchConfig := do
  let tpcRnti ← getBits 16
  let tpcIdx ← unpackTpcIdx
  return { tpcRnti, tpcIdx }

/-! ### CQI reports -/

/-- `LIBLTE_RRC_CQI_REPORT_PERIODIC_STRUCT`. The subband format is the one with a `subbandK`. -/
structure CqiReportPeriodic where
  pucchResourceIdx : BitVec 11
  pmiCnfgIdx : BitVec 10
  subbandK : Option (Offset 1 2)
  riCnfgIdx : Option (BitVec 10)
  simultAckNackAndCqi : Bool
deriving DecidableEq, Repr

structure CqiReportConfig where
  reportModeAperiodic : Option (BitVec 3)
  nomPdschRsEpreOffset : Offset (-1) 3
  reportPeriodic : Option (Option CqiReportPeriodic)
deriving DecidableEq, Repr

def packCqiReportPeriodic (c : CqiReportPeriodic) : List Bool :=
  putFlag c.riCnfgIdx.isSome ++ putBits c.pucchResourceIdx ++ putBits c.pmiCnfgIdx
  ++ putFlagged putOffset c.subbandK ++ putOpt putBits c.riCnfgIdx ++ putFlag c.simultAckNackAndCqi

def unpackCqiReportPeriodic : BitReader CqiReportPeriodic := do
  let riCnfgIdxPresent ← getFlag
  let pucchResourceIdx ← getBits 11
  let pmiCnfgIdx ← getBits 10
  let subbandK ← getFlagged (getOffset 1 2)
  let riCnfgIdx ← getOpt riCnfgIdxPresent (getBits 10)
  let simultAckNackAndCqi ← getFlag
  return { pucchResourceIdx, pmiCnfgIdx, subbandK, riCnfgIdx, simultAckNackAndCqi }

/-- `liblte_rrc_pack_cqi_report_config_ie` -/
def packCqiReportConfig (c : CqiReportConfig) : List Bool :=
  putFlag c.reportModeAperiodic.isSome ++ putFlag c.reportPeriodic.isSome
  ++ putOpt putBits c.reportModeAperiodic ++ putOffset c.nomPdschRsEpreOffset
  ++ putOpt (putFlagged packCqiReportPeriodic) c.reportPeriodic

/-- `liblte_rrc_unpack_cqi_report_config_ie` -/
def unpackCqiReportConfig : BitReader CqiReportConfig := do
  let reportModeAperiodicPresent ← getFlag
  let reportPeriodicPresent ← getFlag
  let reportModeAperiodic ← getOpt reportModeAperiodicPresent (getBits 3)
  let nomPdschRsEpreOffset ← getOffset (-1) 3
  let reportPeriodic ← getOpt reportPeriodicPresent (getFlagged unpackCqiReportPeriodic)
  return { reportModeAperiodic, nomPdschRsEpreOffset, reportPeriodic }

/-! ### Sounding reference signal, antennas and scheduling requests -/

structure SrsUlConfigDedicated where
  srsBandwidth : BitVec 2
  srsHoppingBandwidth : BitVec 2
  freqDomainPos : BitVec 5
  duration : Bool
  srsCnfgIdx : BitVec 10
  txComb : BitVec 1
  cyclicShift : BitVec 3
deriving DecidableEq, Repr

/-- The number of bits of `codebook_subset_restriction`, by its choice from `N2_TM3` to `N4_TM6`. -/
def codebookWidth (choice : BitVec 3) : Nat :=
  match choice.toNat with
  | 0 => 2
  | 2 => 6
  | 3 => 64
  | 5 | 7 => 16
  | _ => 4

structure CodebookSubsetRestriction where
  choice : BitVec 3
  value : Nat
  lt : value < 2 ^ codebookWidth choice
deriving DecidableEq, Repr

structure AntennaInfoDedicated where
  txMode : BitVec 3
  codebookSubsetRestriction : Option CodebookSubsetRestriction
  ueTxAntennaSelection : Option (BitVec 1)
deriving DecidableEq, Repr

structure SchedulingRequestConfig where
  srPucchResourceIdx : BitVec 11
  srCnfgIdx : BitVec 8
  dsrTransMax : BitVec 3
deriving DecidableEq, Repr

/-- The setup part of `liblte_rrc_pack_srs_ul_config_dedicated_ie`. -/
def packSrsUlConfigDedicated (c : SrsUlConfigDedicated) : List Bool :=
  putBits c.srsBandwidth ++ putBits c.srsHoppingBandwidth ++ putBits c.freqDomainPos ++
    putFlag c.duration
  ++ putBits c.srsCnfgIdx ++ putBits c.txComb ++ putBits c.cyclicShift

/-- The setup part of `liblte_rrc_unpack_srs_ul_config_dedicated_ie`. -/
def unpackSrsUlConfigDedicated : BitReader SrsUlConfigDedicated := do
  let srsBandwidth ← getBits 2
  let srsHoppingBandwidth ← getBits 2
  let freqDomainPos ← getBits 5
  let duration ← getFlag
  let srsCnfgIdx ← getBits 10
  let txComb ← getBits 1
  let cyclicShift ← getBits 3
  return { srsBandwidth, srsHoppingBandwidth, freqDomainPos, duration, srsCnfgIdx, txComb,
           cyclicShift }

def packCodebookSubsetRestriction (c : CodebookSubsetRestriction) : List Bool :=
  putBits c.choice ++
  -- The 64 bits of N4_TM4 are written as two words.
  if c.choice.toNat = 3 then putNat 32 (c.value >>> 32) ++ putNat 32 c.value
  else putNat (codebookWidth c.choice) c.value

def unpackCodebookSubsetRestriction : BitReader CodebookSubsetRestriction := do
  let choice ← getBits 3
  let value ← if choice.toNat = 3 then do
      let high ← getNat 32
      let low ← getNat 32
      pure (high <<< 32 ||| low)
    else getNat (codebookWidth choice)
  -- The value read is never wider than that. The remainder only shows it.
  return { choice, value := value % 2 ^ codebookWidth choice,
           lt := Nat.mod_lt _ (Nat.two_pow_pos _) }

/-- `liblte_rrc_pack_antenna_info_dedicated_ie` -/
def packAntennaInfoDedicated (c : AntennaInfoDedicated) : List Bool :=
  putFlag c.codebookSubsetRestriction.isSome ++ putBits c.txMode
  ++ putOpt packCodebookSubsetRestriction c.codebookSubsetRestriction ++
    putFlagged putBits c.ueTxAntennaSelection

/-- `liblte_rrc_unpack_antenna_info_dedicated_ie` -/
def unpackAntennaInfoDedicated : BitReader AntennaInfoDedicated := do
  let codebookSubsetRestrictionPresent ← getFlag
  let txMode ← getBits 3
  let codebookSubsetRestriction ← getOpt codebookSubsetRestrictionPresent
    unpackCodebookSubsetRestriction
  let ueTxAntennaSelection ← getFlagged (getBits 1)
  return { txMode, codebookSubsetRestriction, ueTxAntennaSelection }

/-- The setup part of `liblte_rrc_pack_scheduling_request_config_ie`. -/
def packSchedulingRequestConfig (c : SchedulingRequestConfig) : List Bool :=
  putBits c.srPucchResourceIdx ++ putBits c.srCnfgIdx ++ putBits c.dsrTransMax

/-- The setup part of `liblte_rrc_unpack_scheduling_request_config_ie`. -/
def unpackSchedulingRequestConfig : BitReader SchedulingRequestConfig := do
  let srPucchResourceIdx ← getBits 11
  let srCnfgIdx ← getBits 8
  let dsrTransMax ← getBits 3
  return { srPucchResourceIdx, srCnfgIdx, dsrTransMax }

/-! ### The whole configuration -/

structure PhysicalConfigDedicated where
  pdschCnfgDed : Option (BitVec 3)
  pucchCnfgDed : Option PucchConfigDedicated
  puschCnfgDed : Option PuschConfigDedicated
  ulPwrCtrlDed : Option UlPowerControlDedicated
  tpcPdcchCnfgPucch : Option (Option TpcPdcchConfig)
  tpcPdcchCnfgPusch : Option (Option TpcPdcchConfig)
  cqiReportCnfg : Option CqiReportConfig
  srsUlCnfgDed : Option (Option SrsUlConfigDedicated)
  antennaInfo : Option (Option AntennaInfoDedicated)
  schedRequestCnfg : Option (Option SchedulingRequestConfig)
deriving DecidableEq, Repr

/-- `liblte_rrc_pack_physical_config_dedicated_ie` -/
def packPhysicalConfigDedicated (c : PhysicalConfigDedicated) : List Bool :=
  putFlag false ++ putFlag c.pdschCnfgDed.isSome ++ putFlag c.pucchCnfgDed.isSome
  ++ putFlag c.puschCnfgDed.isSome ++ putFlag c.ulPwrCtrlDed.isSome ++
    putFlag c.tpcPdcchCnfgPucch.isSome
  ++ putFlag c.tpcPdcchCnfgPusch.isSome ++ putFlag c.cqiReportCnfg.isSome ++
    putFlag c.srsUlCnfgDed.isSome
  ++ putFlag c.antennaInfo.isSome ++ putFlag c.schedRequestCnfg.isSome
  ++ putOpt putBits c.pdschCnfgDed ++ putOpt packPucchConfigDedicated c.pucchCnfgDed
  ++ putOpt packPuschConfigDedicated c.puschCnfgDed ++
    putOpt packUlPowerControlDedicated c.ulPwrCtrlDed
  ++ putOpt (putFlagged packTpcPdcchConfig) c.tpcPdcchCnfgPucch
  ++ putOpt (putFlagged packTpcPdcchConfig) c.tpcPdcchCnfgPusch
  ++ putOpt packCqiReportConfig c.cqiReportCnfg
  ++ putOpt (putFlagged packSrsUlConfigDedicated) c.srsUlCnfgDed
  ++ putOpt (putOrDefault packAntennaInfoDedicated) c.antennaInfo
  ++ putOpt (putFlagged packSchedulingRequestConfig) c.schedRequestCnfg

/-- `liblte_rrc_unpack_physical_config_dedicated_ie` -/
def unpackPhysicalConfigDedicated : BitReader PhysicalConfigDedicated := do
  let ext ← getFlag
  let pdschCnfgDedPresent ← getFlag
  let pucchCnfgDedPresent ← getFlag
  let puschCnfgDedPresent ← getFlag
  let ulPwrCtrlDedPresent ← getFlag
  let tpcPdcchCnfgPucchPresent ← getFlag
  let tpcPdcchCnfgPuschPresent ← getFlag
  let cqiReportCnfgPresent ← getFlag
  let srsUlCnfgDedPresent ← getFlag
  let antennaInfoPresent ← getFlag
  let schedRequestCnfgPresent ← getFlag
  let pdschCnfgDed ← getOpt pdschCnfgDedPresent (getBits 3)
  let pucchCnfgDed ← getOpt pucchCnfgDedPresent unpackPucchConfigDedicated
  let puschCnfgDed ← getOpt puschCnfgDedPresent unpackPuschConfigDedicated
  let ulPwrCtrlDed ← getOpt ulPwrCtrlDedPresent unpackUlPowerControlDedicated
  let tpcPdcchCnfgPucch ← getOpt tpcPdcchCnfgPucchPresent (getFlagged unpackTpcPdcchConfig)
  let tpcPdcchCnfgPusch ← getOpt tpcPdcchCnfgPuschPresent (getFlagged unpackTpcPdcchConfig)
  let cqiReportCnfg ← getOpt cqiReportCnfgPresent unpackCqiReportConfig
  let srsUlCnfgDed ← getOpt srsUlCnfgDedPresent (getFlagged unpackSrsUlConfigDedicated)
  let antennaInfo ← getOpt antennaInfoPresent (getOrDefault unpackAntennaInfoDedicated)
  let schedRequestCnfg ← getOpt schedRequestCnfgPresent (getFlagged unpackSchedulingRequestConfig)
  consumeNoncritExtension ext
  return { pdschCnfgDed, pucchCnfgDed, puschCnfgDed, ulPwrCtrlDed, tpcPdcchCnfgPucch,
           tpcPdcchCnfgPusch, cqiReportCnfg, srsUlCnfgDed, antennaInfo, schedRequestCnfg }

end SrsUE.Rrc
