import SrsUE.Mac.Pdu
import SrsUE.Mac.Rar
import SrsUE.Phy.RntiSearch
import Mathlib.Data.Fin.VecNotation

/-!
# `SrsUE.Mac.RaProc`: the random access procedure

The class `ra_proc` of `proc_ra.cc` (3GPP TS 36.321 Section 5.1). `step` runs once in every TTI and
acts on the state; the other entries are callbacks that may come at any time.

What the procedure reads elsewhere in a step is in `StepEnv`: the TTI of the last PRACH, the current
TTI, `rand()` and `mux::msg3_is_transmitted`. The calls it makes to the PHY, the mux, the timers and
RRC are listed in `calls`, in their order. `srslte_tti_interval` is a function of the srsLTE
library, and a parameter here.
-/

set_option autoImplicit false

namespace SrsUE.Mac

open SrsUE.Rlc (Bytes SrslteBit)
open SrsUE.Phy (RntiType)

/-! ### Configuration -/

/-- What `read_params` reads of `mac_cfg`. The fields of `rach` are indices into the tables of
`liblte_rrc.h`. -/
structure MacCfg where
  prachConfigIndex : Nat
  numRaPreambles : Fin 16
  preamblesGroupACnfgPresent : Bool
  sizeOfRa : Fin 15
  msgSize : Fin 4
  raRespWinSize : Fin 8
  pwrRampingStep : Fin 4
  preambleTransMax : Fin 11
  preambleInitRxTargetPwr : Fin 16
  macConResTimer : Fin 8
deriving DecidableEq, Repr

/-- `liblte_rrc_number_of_ra_preambles_num` and, one item shorter,
`liblte_rrc_size_of_ra_preambles_group_a_num` -/
def numberOfRaPreamblesNum (i : Nat) : Nat := 4 * (i + 1)

/-- `liblte_rrc_message_size_group_a_num` -/
def messageSizeGroupANum : Fin 4 → Nat := ![56, 144, 208, 256]

/-- `liblte_rrc_ra_response_window_size_num` -/
def raResponseWindowSizeNum : Fin 8 → Nat := ![2, 3, 4, 5, 6, 7, 8, 10]

/-- `liblte_rrc_power_ramping_step_num` -/
def powerRampingStepNum : Fin 4 → Nat := ![0, 2, 4, 6]

/-- `liblte_rrc_preamble_trans_max_num` -/
def preambleTransMaxNum : Fin 11 → Nat := ![3, 4, 5, 6, 7, 8, 10, 20, 50, 100, 200]

/-- `liblte_rrc_preamble_initial_received_target_power_num`: -120, -118 and so on up to -90 -/
def preambleInitialReceivedTargetPowerNum (i : Fin 16) : Int := -120 + 2 * (i.val : Int)

/-- `liblte_rrc_mac_contention_resolution_timer_num` -/
def macContentionResolutionTimerNum (i : Fin 8) : Nat := 8 * (i.val + 1)

/-- `backoff_table` -/
def backoffTable : List Nat :=
  [0, 10, 20, 30, 40, 60, 80, 120, 160, 240, 320, 480, 960, 960, 960, 960]

/-- `delta_preamble_db_table` -/
def deltaPreambleDbTable : List Int := [0, 0, -3, -3, 8]

/-! ### State -/

/-- The states of `ra_proc`. -/
inductive RaState
  | idle
  | initialization
  | resourceSelection
  | preambleTransmission
  | pdcchSetup
  | responseReception
  | responseError
  | backoffWait
  | contentionResolution
  | completion
  | completionDone
  | raProblem
deriving DecidableEq, Repr

/-- `ra_group_t` -/
inductive RaGroup
  | groupA
  | groupB
deriving DecidableEq, Repr

/-- The type of `pdcch_to_crnti_received`. -/
inductive PdcchCrnti
  | notReceived
  | ulGrant
  | dlGrant
deriving DecidableEq, Repr

/-- `ue_rnti_t`, which MAC, RRC and the procedure share. -/
structure UeRnti where
  crnti : Nat := 0
  tempRnti : Nat := 0
  contentionId : Nat := 0
deriving DecidableEq, Repr

/-- The calls that the procedure makes. -/
inductive RaCall
  | configurePrachParams
  | prachSend (preambleIdx : Nat) (allowedSubframe : Int) (targetPowerDbm : Int)
  | pdcchDlSearch (type : RntiType) (rnti : Nat) (ttiStart ttiEnd : Int)
  | pdcchUlSearch (type : RntiType) (rnti : Nat) (ttiStart ttiEnd : Int)
  | pdcchDlSearchReset
  | setTimeadvRar (taCmd : Nat)
  | setRarGrant (tti : Nat) (grant : List Bool)
  | contentionTimerSet (ms : Nat)
  | contentionTimerRestart
  | contentionTimerStop
  | timeAlignmentRestart
  | timeAlignmentRun
  | msg3Flush
  | appendCrntiCeNextTx (crnti : Nat)
  | raProblem
deriving DecidableEq, Repr

/-- `ra_proc`, with the RNTIs that it points to. -/
structure RaProc where
  rarPduMsg : RarPdu := rarPdu 20
  nofPreambles : Nat := 0
  nofGroupAPreambles : Nat := 0
  nofGroupBPreambles : Nat := 0
  messageSizeGroupA : Nat := 0
  responseWindowSize : Nat := 0
  powerRampingStep : Nat := 0
  preambleTransMax : Nat := 0
  iniReceivedTargetPower : Int := 0
  deltaPreambleDb : Int := 0
  maskIndex : Nat := 0
  preambleIndex : Int := 0
  newRaMsgLen : Nat := 0
  preambleTransmissionCounter : Nat := 0
  backoffParamMs : Nat := 0
  selMaskIndex : Nat := 0
  selPreamble : Nat := 0
  backoffIntervalStart : Nat := 0
  backoffInteval : Nat := 0
  raRnti : Nat := 0
  currentTa : Nat := 0
  state : RaState := .idle
  lastMsg3Group : RaGroup := .groupA
  msg3Transmitted : Bool := false
  firstRarReceived : Bool := false
  transmittedContentionId : Nat := 0
  transmittedCrnti : Nat := 0
  pdcchToCrntiReceived : PdcchCrnti := .notReceived
  startedByPdcch : Bool := false
  rarGrantNbytes : Nat := 0
  rarGrantTti : Nat := 0
  msg3Flushed : Bool := false
  rarReceived : Bool := false
  rntis : UeRnti := {}
  calls : List RaCall := []
deriving DecidableEq, Repr

/-- What a step reads outside of the procedure. -/
structure StepEnv where
  prachTxTti : Int := -1
  currentTti : Nat := 0
  rand : Nat := 0
  msg3IsTransmitted : Bool := false
deriving DecidableEq, Repr

namespace RaProc

/-- The procedure with one more call made. -/
def call (r : RaProc) (c : RaCall) : RaProc := { r with calls := r.calls ++ [c] }

/-- `reset` -/
def reset (r : RaProc) : RaProc :=
  { r with state := .idle, msg3Transmitted := false, startedByPdcch := false }

/-! ### Steps -/

/-- The number of group A preambles that `read_params` ends with. -/
def groupASize (cfg : MacCfg) : Nat :=
  let nofPreambles := numberOfRaPreamblesNum cfg.numRaPreambles
  let nofGroupA :=
    if cfg.preamblesGroupACnfgPresent then numberOfRaPreamblesNum cfg.sizeOfRa else nofPreambles
  if nofGroupA > nofPreambles then nofPreambles else nofGroupA

/-- `read_params`. The timer value is never zero, and the power offset of group B is not read
again. -/
def readParams (r : RaProc) (cfg : MacCfg) : RaProc :=
  let nofPreambles := numberOfRaPreamblesNum cfg.numRaPreambles
  let nofGroupB := nofPreambles - groupASize cfg
  let timer := macContentionResolutionTimerNum cfg.macConResTimer
  let r := { r with
    preambleIndex := 0
    maskIndex := 0
    nofPreambles := nofPreambles
    nofGroupAPreambles := groupASize cfg
    nofGroupBPreambles := nofGroupB
    messageSizeGroupA :=
      if nofGroupB ≠ 0 then messageSizeGroupANum cfg.msgSize else r.messageSizeGroupA
    responseWindowSize := raResponseWindowSizeNum cfg.raRespWinSize
    powerRampingStep := powerRampingStepNum cfg.pwrRampingStep
    preambleTransMax := preambleTransMaxNum cfg.preambleTransMax
    iniReceivedTargetPower := preambleInitialReceivedTargetPowerNum cfg.preambleInitRxTargetPwr
    deltaPreambleDb := deltaPreambleDbTable.getD (cfg.prachConfigIndex % 5) 0 }
  if timer > 0 then r.call (.contentionTimerSet timer) else r

/-- `step_initialization`. The state that it sets for a UE with a C-RNTI is overwritten. -/
def stepInitialization (r : RaProc) (cfg : MacCfg) : RaProc :=
  let r := r.readParams cfg
  let r := { r with
    pdcchToCrntiReceived := .notReceived
    transmittedContentionId := 0
    preambleTransmissionCounter := 1
    firstRarReceived := true }
  let r := r.call .msg3Flush
  let r := { r with msg3Flushed := false, backoffParamMs := 0, transmittedCrnti := r.rntis.crnti }
  { r.call .configurePrachParams with state := .resourceSelection }

/-- The group that `step_resource_selection` selects when the UE chooses the preamble. -/
def selGroup (r : RaProc) : RaGroup :=
  if !r.msg3Transmitted then
    if r.nofGroupBPreambles > 0 && r.newRaMsgLen > r.messageSizeGroupA then .groupB else .groupA
  else r.lastMsg3Group

/-- `step_resource_selection` -/
def stepResourceSelection (r : RaProc) (rand : Nat) : RaProc :=
  if r.preambleIndex > 0 then
    { r with
      selMaskIndex := r.maskIndex
      selPreamble := r.preambleIndex.toNat % r.nofPreambles
      state := .preambleTransmission }
  else
    -- When Msg3 has been transmitted, the last group is selected and the assignment changes
    -- nothing.
    let r := { r with lastMsg3Group := r.selGroup }
    match r.lastMsg3Group with
    | .groupA =>
      if r.nofGroupAPreambles ≠ 0 then
        { r with
          selPreamble := r.preambleTransmissionCounter % r.nofGroupAPreambles
          selMaskIndex := 0
          state := .preambleTransmission }
      else { r with state := .raProblem }
    | .groupB =>
      if r.nofGroupBPreambles ≠ 0 then
        { r with
          selPreamble := r.nofGroupAPreambles + rand % r.nofGroupBPreambles
          selMaskIndex := 0
          state := .preambleTransmission }
      else { r with state := .raProblem }

/-- `received_target_power_dbm`, a sum of unsigned numbers that is then read as an `int`. -/
def receivedTargetPowerDbm (r : RaProc) : Int :=
  toInt32 (toUint32 (r.iniReceivedTargetPower + r.deltaPreambleDb +
    ((r.preambleTransmissionCounter : Int) - 1) * r.powerRampingStep))

/-- `step_preamble_transmission` -/
def stepPreambleTransmission (r : RaProc) : RaProc :=
  let r := { r with rarReceived := false }
  { r.call (.prachSend r.selPreamble (toInt32 (toUint32 ((r.selMaskIndex : Int) - 1)))
      r.receivedTargetPowerDbm) with
    state := .pdcchSetup }

/-- `step_pdcch_setup`, with what `prach_tx_tti` returns -/
def stepPdcchSetup (r : RaProc) (raTti : Int) : RaProc :=
  if raTti > 0 then
    let r := { r with raRnti := 1 + (raTti % 10).toNat }
    { r.call (.pdcchDlSearch .rar r.raRnti (raTti + 3) (raTti + 3 + r.responseWindowSize)) with
      state := .responseReception }
  else r

/-- `step_response_error` -/
def stepResponseError (r : RaProc) (env : StepEnv) : RaProc :=
  let r := { r with preambleTransmissionCounter := (r.preambleTransmissionCounter + 1) % 2 ^ 32 }
  if r.preambleTransmissionCounter ≥ r.preambleTransMax + 1 then
    { r.call .raProblem with state := .raProblem }
  else
    let backoff := if r.backoffParamMs ≠ 0 then env.rand % r.backoffParamMs else 0
    { r with
      backoffIntervalStart := env.currentTti
      backoffInteval := backoff
      state := if backoff ≠ 0 then .backoffWait else .resourceSelection }

/-- `step_contention_resolution` -/
def stepContentionResolution (r : RaProc) (env : StepEnv) : RaProc :=
  if env.msg3IsTransmitted then
    let r := { r with msg3Transmitted := true }
    if r.transmittedCrnti ≠ 0 then
      let r :=
        if !r.startedByPdcch && r.pdcchToCrntiReceived = .ulGrant ||
            r.startedByPdcch && r.pdcchToCrntiReceived ≠ .notReceived then
          { r.call .contentionTimerStop with
            rntis := { r.rntis with tempRnti := 0 }, state := .completion }
        else r
      { r with pdcchToCrntiReceived := .notReceived }
    else if r.transmittedContentionId = 0 then
      { r with
        transmittedContentionId := r.rntis.contentionId
        rntis := { r.rntis with contentionId := 0 } }
    else r
  else r

/-- `step_completition` -/
def stepCompletition (r : RaProc) : RaProc :=
  let r := if !r.msg3Flushed then { r.call .msg3Flush with msg3Flushed := true } else r
  { r with msg3Transmitted := false, state := .completionDone }

section
variable (ttiInterval : Nat → Nat → Nat)

/-- `step_response_reception` -/
def stepResponseReception (r : RaProc) (env : StepEnv) : RaProc :=
  if env.prachTxTti ≥ 0 && !r.rarReceived then
    let interval :=
      ttiInterval env.currentTti (env.prachTxTti.toNat + 3 + r.responseWindowSize)
    if interval > 1 && interval < 100 then { r with state := .responseError } else r
  else r

/-- `step_backoff_wait` -/
def stepBackoffWait (r : RaProc) (env : StepEnv) : RaProc :=
  if ttiInterval env.currentTti r.backoffIntervalStart ≥ r.backoffInteval then
    { r with state := .resourceSelection }
  else r

/-- `step` -/
def step (r : RaProc) (cfg : MacCfg) (env : StepEnv) : RaProc :=
  match r.state with
  | .idle => r
  | .initialization => r.stepInitialization cfg
  | .resourceSelection => r.stepResourceSelection env.rand
  | .preambleTransmission => r.stepPreambleTransmission
  | .pdcchSetup => r.stepPdcchSetup env.prachTxTti
  | .responseReception => r.stepResponseReception ttiInterval env
  | .responseError => r.stepResponseError env
  | .backoffWait => r.stepBackoffWait ttiInterval env
  | .contentionResolution => r.stepContentionResolution env
  | .completion => r.stepCompletition
  | .completionDone => r
  | .raProblem => r

end

/-! ### Callbacks -/

/-- `MAX_RAR_PDU_LEN` -/
def maxRarPduLen : Nat := 2048

/-- `new_grant_dl`, as far as it acts on the procedure. -/
def newGrantDl (r : RaProc) (nBytes tti : Nat) : RaProc :=
  if nBytes < maxRarPduLen then { r with rarGrantNbytes := nBytes, rarGrantTti := tti }
  else { r with state := .responseError }

/-- `process_timeadv_cmd` -/
def processTimeadvCmd (r : RaProc) (ta : Nat) (timeAlignmentRunning : Bool) : RaProc :=
  if r.preambleIndex = 0 then (r.call (.setTimeadvRar ta)).call .timeAlignmentRestart
  else if !timeAlignmentRunning then (r.call (.setTimeadvRar ta)).call .timeAlignmentRun
  else r

/-- What `tb_decoded_ok` does when it has the first response to the selected preamble. -/
def saveTransmittedCrnti (r : RaProc) : RaProc :=
  if r.firstRarReceived then
    let r := { r with firstRarReceived := false, transmittedCrnti := r.rntis.crnti }
    if r.transmittedCrnti ≠ 0 then
      let r := r.call (.appendCrntiCeNextTx r.transmittedCrnti)
      let r := r.call (.pdcchUlSearch .user r.transmittedCrnti (-1) (-1))
      r.call (.pdcchDlSearch .user r.transmittedCrnti (-1) (-1))
    else r
  else r

/-- What `tb_decoded_ok` does at the end for a preamble that the UE selected. -/
def enterContentionResolution (r : RaProc) (tempCrnti : Nat) : RaProc :=
  let r := { r with rntis := { r.rntis with tempRnti := tempCrnti } }
  let r := r.call (.pdcchDlSearch .temp tempCrnti (-1) (-1))
  let r := { r.saveTransmittedCrnti with state := .contentionResolution }
  r.call .contentionTimerRestart

/-- The body of the loop of `tb_decoded_ok`, for one response. -/
def response (timeAlignmentRunning : Bool) (r : RaProc) (s : RarSubh) : RaProc :=
  if s.preamble = r.selPreamble then
    let r := { r with rarReceived := true }.processTimeadvCmd s.ta timeAlignmentRunning
    let r := r.call .pdcchDlSearchReset
    let r := r.call (.setRarGrant r.rarGrantTti s.grant)
    let r := { r with currentTa := s.ta }
    if r.preambleIndex > 0 then { r with state := .completion }
    else r.enterContentionResolution s.tempRnti
  else r

/-- `tb_decoded_ok`, with the bytes from `rar_pdu_buffer` on. `none` where `parse_packet` has
none. -/
def tbDecodedOk (L : SrslteBit) (r : RaProc) (rarPduBuffer : Bytes) (timeAlignmentRunning : Bool) :
    Option RaProc :=
  (r.rarPduMsg.receive L rarPduBuffer).map fun msg =>
    let r := { r with
      rarPduMsg := msg
      backoffParamMs :=
        if msg.hasBackoffIndicator then backoffTable.getD (msg.backoffIndicator % 16) 0 else 0
      currentTa := 0 }
    msg.responses.foldl (response timeAlignmentRunning) r

/-- `contention_resolution_id_received` -/
def contentionResolutionIdReceived (r : RaProc) (rxContentionId : Nat) : RaProc × Bool :=
  let r := r.call .contentionTimerStop
  let uecriSuccessful := r.transmittedContentionId == rxContentionId
  let r :=
    if uecriSuccessful then
      { r with rntis := { r.rntis with crnti := r.rntis.tempRnti }, state := .completion }
    else { r with state := .responseError }
  ({ r with rntis := { r.rntis with tempRnti := 0 } }, uecriSuccessful)

/-- `start_mac_order` -/
def startMacOrder (r : RaProc) (msgLenBits : Nat) : RaProc :=
  if r.state = .idle ∨ r.state = .completionDone ∨ r.state = .raProblem then
    { r with startedByPdcch := false, newRaMsgLen := msgLenBits, state := .initialization }
  else r

/-- `start_pdcch_order` -/
def startPdcchOrder (r : RaProc) : RaProc :=
  if r.state = .idle ∨ r.state = .completionDone ∨ r.state = .raProblem then
    { r with startedByPdcch := true, state := .initialization }
  else r

/-- `timer_expired` -/
def timerExpired (r : RaProc) : RaProc :=
  { r with rntis := { r.rntis with tempRnti := 0 }, state := .responseError }.call
    .pdcchDlSearchReset

/-- `pdcch_to_crnti` -/
def pdcchToCrnti (r : RaProc) (containsUplinkGrant : Bool) : RaProc :=
  if containsUplinkGrant then { r with pdcchToCrntiReceived := .ulGrant }
  else if r.pdcchToCrntiReceived = .notReceived then { r with pdcchToCrntiReceived := .dlGrant }
  else r

end RaProc

/-- The entries of the procedure, and what RRC and MAC write to the RNTIs that it shares. -/
inductive RaEvent
  | step (cfg : MacCfg) (env : StepEnv)
  | newGrantDl (nBytes tti : Nat)
  | tbDecodedOk (rarPduBuffer : Bytes) (timeAlignmentRunning : Bool)
  | contentionResolutionIdReceived (rxContentionId : Nat)
  | pdcchToCrnti (containsUplinkGrant : Bool)
  | timerExpired
  | startMacOrder (msgLenBits : Nat)
  | startPdcchOrder
  | reset
  | setRntis (rntis : UeRnti)
deriving DecidableEq, Repr

/-- One entry. -/
def RaProc.handle (ttiInterval : Nat → Nat → Nat) (L : SrslteBit) (r : RaProc) :
    RaEvent → Option RaProc
  | .step cfg env => some (r.step ttiInterval cfg env)
  | .newGrantDl nBytes tti => some (r.newGrantDl nBytes tti)
  | .tbDecodedOk rarPduBuffer running => r.tbDecodedOk L rarPduBuffer running
  | .contentionResolutionIdReceived id => some (r.contentionResolutionIdReceived id).1
  | .pdcchToCrnti containsUplinkGrant => some (r.pdcchToCrnti containsUplinkGrant)
  | .timerExpired => some r.timerExpired
  | .startMacOrder msgLenBits => some (r.startMacOrder msgLenBits)
  | .startPdcchOrder => some r.startPdcchOrder
  | .reset => some r.reset
  | .setRntis rntis => some { r with rntis := rntis }

end SrsUE.Mac
