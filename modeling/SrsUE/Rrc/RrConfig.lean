import SrsUE.Rrc.PhysicalConfig

/-!
# `SrsUE.Rrc.RrConfig`: the dedicated radio resource configuration

The configuration of the MAC layer and of semi-persistent scheduling, and
`LIBLTE_RRC_RR_CONFIG_DEDICATED_STRUCT` with the radio bearers.

The reader of the whole configuration fills a structure that holds something already. It sets the
number of entries of a list only when the list is there, and it leaves `rlf_timers_and_constants`
alone. So it takes the structure as it was. The lists of data radio bearers have room for 11
entries. The reader takes up to 16 from a message, and those behind the eleventh, which it writes
past the end of the array, are left out.
-/

set_option autoImplicit false

namespace SrsUE.Rrc

open SrsUE.Lib

/-! ### MAC -/

structure UlschConfig where
  maxHarqTx : Option (BitVec 4)
  periodicBsrTimer : Option (BitVec 4)
  retxBsrTimer : BitVec 3
  ttiBundling : Bool
deriving DecidableEq, Repr

/-- The number of bits of `long_drx_cycle_start_offset`, by its choice from `SF10` to `SF2560`. -/
def longDrxWidth (choice : BitVec 4) : Nat :=
  match choice.toNat with
  | 0 => 4
  | 1 | 2 => 5
  | 3 | 4 => 6
  | 5 | 6 => 7
  | 7 | 8 => 8
  | 9 | 10 => 9
  | 11 | 12 => 10
  | 13 | 14 => 11
  | _ => 12

structure LongDrxCycleStartOffset where
  choice : BitVec 4
  value : Nat
  lt : value < 2 ^ longDrxWidth choice
deriving DecidableEq, Repr

structure ShortDrx where
  cycle : BitVec 4
  cycleTimer : Offset 1 4
deriving DecidableEq, Repr

structure DrxConfig where
  onDurationTimer : BitVec 4
  drxInactivityTimer : BitVec 5
  drxRetxTimer : BitVec 3
  longDrxCycleStartOffset : LongDrxCycleStartOffset
  shortDrx : Option ShortDrx
deriving DecidableEq, Repr

structure PhrConfig where
  periodicPhrTimer : BitVec 3
  prohibitPhrTimer : BitVec 3
  dlPathlossChange : BitVec 2
deriving DecidableEq, Repr

structure MacMainConfig where
  ulschCnfg : Option UlschConfig
  drxCnfg : Option (Option DrxConfig)
  timeAlignmentTimer : BitVec 3
  phrCnfg : Option (Option PhrConfig)
deriving DecidableEq, Repr

def packUlschConfig (c : UlschConfig) : List Bool :=
  putFlag c.maxHarqTx.isSome ++ putFlag c.periodicBsrTimer.isSome ++ putOpt putBits c.maxHarqTx
  ++ putOpt putBits c.periodicBsrTimer ++ putBits c.retxBsrTimer ++ putFlag c.ttiBundling

def unpackUlschConfig : BitReader UlschConfig := do
  let maxHarqTxPresent ← getFlag
  let periodicBsrTimerPresent ← getFlag
  let maxHarqTx ← getOpt maxHarqTxPresent (getBits 4)
  let periodicBsrTimer ← getOpt periodicBsrTimerPresent (getBits 4)
  let retxBsrTimer ← getBits 3
  let ttiBundling ← getFlag
  return { maxHarqTx, periodicBsrTimer, retxBsrTimer, ttiBundling }

def packLongDrxCycleStartOffset (c : LongDrxCycleStartOffset) : List Bool :=
  putBits c.choice ++ putNat (longDrxWidth c.choice) c.value

def unpackLongDrxCycleStartOffset : BitReader LongDrxCycleStartOffset := do
  let choice ← getBits 4
  let value ← getNat (longDrxWidth choice)
  -- The value read is never wider than that. The remainder only shows it.
  return { choice, value := value % 2 ^ longDrxWidth choice,
           lt := Nat.mod_lt _ (Nat.two_pow_pos _) }

def packShortDrx (c : ShortDrx) : List Bool := putBits c.cycle ++ putOffset c.cycleTimer

def unpackShortDrx : BitReader ShortDrx := do
  let cycle ← getBits 4
  let cycleTimer ← getOffset 1 4
  return { cycle, cycleTimer }

def packDrxConfig (c : DrxConfig) : List Bool :=
  putFlag c.shortDrx.isSome ++ putBits c.onDurationTimer ++ putBits c.drxInactivityTimer
  ++ putBits c.drxRetxTimer ++ packLongDrxCycleStartOffset c.longDrxCycleStartOffset
  ++ putOpt packShortDrx c.shortDrx

def unpackDrxConfig : BitReader DrxConfig := do
  let shortDrxPresent ← getFlag
  let onDurationTimer ← getBits 4
  let drxInactivityTimer ← getBits 5
  let drxRetxTimer ← getBits 3
  let longDrxCycleStartOffset ← unpackLongDrxCycleStartOffset
  let shortDrx ← getOpt shortDrxPresent unpackShortDrx
  return { onDurationTimer, drxInactivityTimer, drxRetxTimer, longDrxCycleStartOffset, shortDrx }

def packPhrConfig (c : PhrConfig) : List Bool :=
  putBits c.periodicPhrTimer ++ putBits c.prohibitPhrTimer ++ putBits c.dlPathlossChange

def unpackPhrConfig : BitReader PhrConfig := do
  let periodicPhrTimer ← getBits 3
  let prohibitPhrTimer ← getBits 3
  let dlPathlossChange ← getBits 2
  return { periodicPhrTimer, prohibitPhrTimer, dlPathlossChange }

/-- `liblte_rrc_pack_mac_main_config_ie` -/
def packMacMainConfig (c : MacMainConfig) : List Bool :=
  putFlag false ++ putFlag c.ulschCnfg.isSome ++ putFlag c.drxCnfg.isSome ++
    putFlag c.phrCnfg.isSome
  ++ putOpt packUlschConfig c.ulschCnfg ++ putOpt (putFlagged packDrxConfig) c.drxCnfg
  ++ putBits c.timeAlignmentTimer ++ putOpt (putFlagged packPhrConfig) c.phrCnfg

/-- `liblte_rrc_unpack_mac_main_config_ie` -/
def unpackMacMainConfig : BitReader MacMainConfig := do
  let ext ← getFlag
  let ulschCnfgPresent ← getFlag
  let drxCnfgPresent ← getFlag
  let phrCnfgPresent ← getFlag
  let ulschCnfg ← getOpt ulschCnfgPresent unpackUlschConfig
  let drxCnfg ← getOpt drxCnfgPresent (getFlagged unpackDrxConfig)
  let timeAlignmentTimer ← getBits 3
  let phrCnfg ← getOpt phrCnfgPresent (getFlagged unpackPhrConfig)
  consumeNoncritExtension ext
  return { ulschCnfg, drxCnfg, timeAlignmentTimer, phrCnfg }

/-! ### Semi-persistent scheduling -/

/-- The room of `n1_pucch_an_persistent_list`. -/
def n1PucchListSize : Nat := 4

instance : NeZero n1PucchListSize := ⟨by decide⟩

structure SpsConfigDl where
  spsIntervalDl : BitVec 4
  nSpsProcesses : Offset 1 3
  n1PucchAnPersistentList : Counted (BitVec 11) n1PucchListSize
deriving DecidableEq

structure P0Persistent where
  p0NominalPusch : Offset (-126) 8
  p0UePusch : Offset (-8) 4
deriving DecidableEq, Repr

structure SpsConfigUl where
  spsIntervalUl : BitVec 4
  implicitReleaseAfter : BitVec 2
  p0Persistent : Option P0Persistent
  twoIntervalsCnfg : Option (BitVec 1)
deriving DecidableEq, Repr

structure SpsConfig where
  spsCRnti : Option (BitVec 16)
  spsCnfgDl : Option (Option SpsConfigDl)
  spsCnfgUl : Option (Option SpsConfigUl)
deriving DecidableEq

def packSpsConfigDl (c : SpsConfigDl) : List Bool :=
  putFlag false ++ putBits c.spsIntervalDl ++ putOffset c.nSpsProcesses
  ++ putCounted 2 putBits c.n1PucchAnPersistentList

def unpackSpsConfigDl : BitReader SpsConfigDl := do
  let ext ← getFlag
  let spsIntervalDl ← getBits 4
  let nSpsProcesses ← getOffset 1 3
  let n1PucchAnPersistentList ← getCounted 2 n1PucchListSize (getBits 11)
  consumeNoncritExtension ext
  return { spsIntervalDl, nSpsProcesses, n1PucchAnPersistentList }

def packP0Persistent (c : P0Persistent) : List Bool :=
  putOffset c.p0NominalPusch ++ putOffset c.p0UePusch

def unpackP0Persistent : BitReader P0Persistent := do
  let p0NominalPusch ← getOffset (-126) 8
  let p0UePusch ← getOffset (-8) 4
  return { p0NominalPusch, p0UePusch }

def packSpsConfigUl (c : SpsConfigUl) : List Bool :=
  putFlag false ++ putFlag c.p0Persistent.isSome ++ putFlag c.twoIntervalsCnfg.isSome
  ++ putBits c.spsIntervalUl ++ putBits c.implicitReleaseAfter ++
    putOpt packP0Persistent c.p0Persistent
  ++ putOpt putBits c.twoIntervalsCnfg

def unpackSpsConfigUl : BitReader SpsConfigUl := do
  let ext ← getFlag
  let p0PersistentPresent ← getFlag
  let twoIntervalsCnfgPresent ← getFlag
  let spsIntervalUl ← getBits 4
  let implicitReleaseAfter ← getBits 2
  let p0Persistent ← getOpt p0PersistentPresent unpackP0Persistent
  let twoIntervalsCnfg ← getOpt twoIntervalsCnfgPresent (getBits 1)
  consumeNoncritExtension ext
  return { spsIntervalUl, implicitReleaseAfter, p0Persistent, twoIntervalsCnfg }

/-- `liblte_rrc_pack_sps_config_ie` -/
def packSpsConfig (c : SpsConfig) : List Bool :=
  putFlag c.spsCRnti.isSome ++ putFlag c.spsCnfgDl.isSome ++ putFlag c.spsCnfgUl.isSome
  ++ putOpt putBits c.spsCRnti ++ putOpt (putFlagged packSpsConfigDl) c.spsCnfgDl
  ++ putOpt (putFlagged packSpsConfigUl) c.spsCnfgUl

/-- `liblte_rrc_unpack_sps_config_ie` -/
def unpackSpsConfig : BitReader SpsConfig := do
  let spsCRntiPresent ← getFlag
  let spsCnfgDlPresent ← getFlag
  let spsCnfgUlPresent ← getFlag
  let spsCRnti ← getOpt spsCRntiPresent (getBits 16)
  let spsCnfgDl ← getOpt spsCnfgDlPresent (getFlagged unpackSpsConfigDl)
  let spsCnfgUl ← getOpt spsCnfgUlPresent (getFlagged unpackSpsConfigUl)
  return { spsCRnti, spsCnfgDl, spsCnfgUl }

/-! ### Radio bearers -/

/-- `LIBLTE_RRC_MAX_DRB` -/
def maxDrb : Nat := 11

instance : NeZero maxDrb := ⟨by decide⟩

/-- A part that is there has an explicit value, or the default one. -/
structure SrbToAddMod where
  srbId : Offset 1 1
  rlcCnfg : Option (Option RlcConfig)
  lcCnfg : Option (Option LogicalChannelConfig)
deriving DecidableEq, Repr

structure DrbToAddMod where
  epsBearerId : Option (BitVec 4)
  drbId : Offset 1 5
  pdcpCnfg : Option PdcpConfig
  rlcCnfg : Option RlcConfig
  lcId : Option (Offset 3 3)
  lcCnfg : Option LogicalChannelConfig
deriving DecidableEq, Repr

structure RlfTimersAndConstants where
  t301 : BitVec 3
  t310 : BitVec 3
  n310 : BitVec 3
  t311 : BitVec 3
  n311 : BitVec 3
deriving DecidableEq, Repr

/-- `LIBLTE_RRC_RR_CONFIG_DEDICATED_STRUCT`. A list of no entries is `none`. -/
structure RrConfigDedicated where
  srbToAddModList : Option (Counted SrbToAddMod 2) := none
  drbToAddModList : Option (Counted DrbToAddMod maxDrb) := none
  drbToReleaseList : Option (Counted (Offset 1 5) maxDrb) := none
  macMainCnfg : Option (Option MacMainConfig) := none
  spsCnfg : Option SpsConfig := none
  phyCnfgDed : Option PhysicalConfigDedicated := none
  rlfTimersAndConstants : Option RlfTimersAndConstants := none
deriving DecidableEq

def packSrbToAddMod (c : SrbToAddMod) : List Bool :=
  putFlag false ++ putFlag c.rlcCnfg.isSome ++ putFlag c.lcCnfg.isSome ++ putOffset c.srbId
  ++ putOpt (putOrDefault packRlcConfig) c.rlcCnfg ++ putOpt (putOrDefault packLogicalChannelConfig)
    c.lcCnfg

def unpackSrbToAddMod : BitReader SrbToAddMod := do
  let srbExt ← getFlag
  let rlcCnfgPresent ← getFlag
  let lcCnfgPresent ← getFlag
  let srbId ← getOffset 1 1
  let rlcCnfg ← getOpt rlcCnfgPresent (getOrDefault unpackRlcConfig)
  let lcCnfg ← getOpt lcCnfgPresent (getOrDefault unpackLogicalChannelConfig)
  consumeNoncritExtension srbExt
  return { srbId, rlcCnfg, lcCnfg }

def packDrbToAddMod (c : DrbToAddMod) : List Bool :=
  putFlag false ++ putFlag c.epsBearerId.isSome ++ putFlag c.pdcpCnfg.isSome ++
    putFlag c.rlcCnfg.isSome
  ++ putFlag c.lcId.isSome ++ putFlag c.lcCnfg.isSome ++ putOpt putBits c.epsBearerId ++
    putOffset c.drbId
  ++ putOpt packPdcpConfig c.pdcpCnfg ++ putOpt packRlcConfig c.rlcCnfg ++ putOpt putOffset c.lcId
  ++ putOpt packLogicalChannelConfig c.lcCnfg

def unpackDrbToAddMod : BitReader DrbToAddMod := do
  let drbExt ← getFlag
  let epsBearerIdPresent ← getFlag
  let pdcpCnfgPresent ← getFlag
  let rlcCnfgPresent ← getFlag
  let lcIdPresent ← getFlag
  let lcCnfgPresent ← getFlag
  let epsBearerId ← getOpt epsBearerIdPresent (getBits 4)
  let drbId ← getOffset 1 5
  let pdcpCnfg ← getOpt pdcpCnfgPresent unpackPdcpConfig
  let rlcCnfg ← getOpt rlcCnfgPresent unpackRlcConfig
  let lcId ← getOpt lcIdPresent (getOffset 3 3)
  let lcCnfg ← getOpt lcCnfgPresent unpackLogicalChannelConfig
  consumeNoncritExtension drbExt
  return { epsBearerId, drbId, pdcpCnfg, rlcCnfg, lcId, lcCnfg }

/-- `liblte_rrc_pack_rlf_timers_and_constants_ie` -/
def packRlfTimersAndConstants (c : RlfTimersAndConstants) : List Bool :=
  putFlag true ++ putFlag false ++ putBits c.t301 ++ putBits c.t310 ++ putBits c.n310 ++
    putBits c.t311
  ++ putBits c.n311

/-- The last part of `liblte_rrc_pack_rr_config_dedicated_ie`, under "Extension". It writes the flag
also when there is no extension. -/
def packRlfExtension (c : RrConfigDedicated) : List Bool :=
  putFlagged packRlfTimersAndConstants c.rlfTimersAndConstants

/-- `liblte_rrc_pack_rr_config_dedicated_ie` -/
def packRrConfigDedicated (c : RrConfigDedicated) : List Bool :=
  putFlag c.rlfTimersAndConstants.isSome ++ putFlag c.srbToAddModList.isSome
  ++ putFlag c.drbToAddModList.isSome ++ putFlag c.drbToReleaseList.isSome
  ++ putFlag c.macMainCnfg.isSome ++ putFlag c.spsCnfg.isSome ++ putFlag c.phyCnfgDed.isSome
  ++ putOpt (putCounted 1 packSrbToAddMod) c.srbToAddModList
  ++ putOpt (putCounted 4 packDrbToAddMod) c.drbToAddModList
  ++ putOpt (putCounted 4 putOffset) c.drbToReleaseList ++ putOpt (putOrDefault packMacMainConfig)
    c.macMainCnfg
  ++ putOpt packSpsConfig c.spsCnfg ++ putOpt packPhysicalConfigDedicated c.phyCnfgDed ++
    packRlfExtension c

/-- `liblte_rrc_unpack_rr_config_dedicated_ie` into the structure `old`. "Modified by ismael, just
skip extensions". -/
def unpackRrConfigDedicated (old : RrConfigDedicated) : BitReader RrConfigDedicated := do
  let ext ← getFlag
  let srbToAddModListPresent ← getFlag
  let drbToAddModListPresent ← getFlag
  let drbToReleaseListPresent ← getFlag
  let macMainCnfgPresent ← getFlag
  let spsCnfgPresent ← getFlag
  let phyCnfgDedPresent ← getFlag
  let srbToAddModList ← getOpt srbToAddModListPresent (getCounted 1 2 unpackSrbToAddMod)
  let drbToAddModList ← getOpt drbToAddModListPresent (getCounted 4 maxDrb unpackDrbToAddMod)
  let drbToReleaseList ← getOpt drbToReleaseListPresent (getCounted 4 maxDrb (getOffset 1 5))
  let macMainCnfg ← getOpt macMainCnfgPresent (getOrDefault unpackMacMainConfig)
  let spsCnfg ← getOpt spsCnfgPresent unpackSpsConfig
  let phyCnfgDed ← getOpt phyCnfgDedPresent unpackPhysicalConfigDedicated
  consumeNoncritExtension ext
  return { srbToAddModList := srbToAddModList <|> old.srbToAddModList
           drbToAddModList := drbToAddModList <|> old.drbToAddModList
           drbToReleaseList := drbToReleaseList <|> old.drbToReleaseList
           macMainCnfg, spsCnfg, phyCnfgDed, rlfTimersAndConstants := old.rlfTimersAndConstants }

end SrsUE.Rrc
