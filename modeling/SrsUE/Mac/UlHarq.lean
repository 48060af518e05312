import SrsUE.Rlc.Common

/-!
# `SrsUE.Mac.UlHarq`: uplink HARQ processes

The class `ul_harq_process` of `ul_harq.cc` (3GPP TS 36.321 Section 5.4.2), and the entries of
`ul_harq_entity` as they act on the process that they address. `set_ack` and `run_tti` address the
same process at the same TTI, since 10240 is a multiple of the number of processes.

`pdu_ptr` is modelled by the bytes it points to, and by `none` for NULL. What the mux returns when
it is asked comes with the entry, in `UlInput`. The PHY clears the action before an entry.
-/

set_option autoImplicit false

namespace SrsUE.Mac

open SrsUE.Rlc (Bytes)

/-- The values of `srslte_rnti_type_t` that the HARQ entity compares with. `SRSLTE_RNTI_USER` is
0. -/
structure RntiCodes where
  temp : Nat
  rar : Nat
  sps : Nat
  one_lt_temp : 1 < temp
  rar_ne_user : rar ≠ 0
  rar_ne_temp : rar ≠ temp

/-- `mac_grant_t`. The PHY grant is not looked into. -/
structure MacGrant (Γ : Type) where
  pid : Nat := 0
  tti : Nat := 0
  lastTti : Nat := 0
  ndi : Bool := false
  lastNdi : Bool := false
  nBytes : Nat := 0
  rv : Int := 0
  rnti : Nat := 0
  isFromRar : Bool := false
  rntiType : Nat := 0
  phyGrant : Γ
deriving DecidableEq, Repr

/-- `tb_action_ul_t` -/
structure TbActionUl (Γ : Type) where
  txEnabled : Bool := false
  expectAck : Bool := false
  rv : Int := 0
  rnti : Nat := 0
  currentTxNb : Nat := 0
  phyGrant : Γ
  payloadPtr : Option Bytes := none
deriving DecidableEq, Repr

/-- The calls that a process makes to the mux and to the timers. -/
inductive UlCall
  | msg3Get (nBytes : Nat)
  | pduGet (nBytes ttiTx pid : Nat)
  | puschRetx (ttiTx pid : Nat)
  | contentionTimerReset
deriving DecidableEq, Repr

/-- `ul_harq_process` -/
structure UlHarqProcess (Γ : Type) where
  pid : Nat
  currentTxNb : Nat
  currentIrv : Nat
  isGrantConfigured : Bool
  ndi : Bool
  harqFeedback : Bool
  isMsg3 : Bool
  ttiLastTx : Nat
  curGrant : MacGrant Γ
  pduPtr : Option Bytes
deriving DecidableEq, Repr

/-- The limits that `generate_tx` reads from the configuration. -/
structure UlLimits where
  maxHarqTx : Nat
  maxHarqMsg3Tx : Nat
deriving DecidableEq, Repr

/-- What an entry reads elsewhere: the PDU that the mux returns if it is asked, the temporary
C-RNTI, and the NDI of the process with the TTI of the grant, which SPS grants are given. -/
structure UlInput where
  muxPdu : Option Bytes := none
  tempRnti : Nat := 0
  ndiOfTti : Bool := false
deriving DecidableEq, Repr

/-- What an entry leaves. -/
structure UlOutcome (Γ : Type) where
  proc : UlHarqProcess Γ
  action : TbActionUl Γ
  calls : List UlCall := []
deriving DecidableEq, Repr

namespace UlHarqProcess

variable {Γ : Type} [Inhabited Γ]

/-- The process after the constructor, `init` and `mac::reset`. `harq_feedback`, `is_msg3` and the
bytes of the buffer are not set. -/
def initial (pid : Nat) (harqFeedback isMsg3 : Bool) (buffer : Bytes) : UlHarqProcess Γ where
  pid := pid
  currentTxNb := 0
  currentIrv := 0
  isGrantConfigured := false
  ndi := false
  harqFeedback := harqFeedback
  isMsg3 := isMsg3
  ttiLastTx := 0
  curGrant := { phyGrant := default }
  pduPtr := some buffer

/-- `reset` -/
def reset (p : UlHarqProcess Γ) : UlHarqProcess Γ :=
  { p with
    currentTxNb := 0
    currentIrv := 0
    ttiLastTx := 0
    isGrantConfigured := false
    curGrant := { phyGrant := default } }

/-- `reset_ndi`, which is all that `mac::reset` does to a process. -/
def resetNdi (p : UlHarqProcess Γ) : UlHarqProcess Γ := { p with ndi := false }

/-- `rv_of_irv` -/
def rvOfIrv (irv : Nat) : Nat := [0, 2, 3, 1].getD irv 0

/-- `irv_of_rv` -/
def irvOfRv (rv : Nat) : Nat := [0, 3, 1, 2].getD rv 0

/-- `get_rv` -/
def getRv (p : UlHarqProcess Γ) : Nat := rvOfIrv (p.currentIrv % 4)

/-- `set_harq_feedback` -/
def setHarqFeedback (p : UlHarqProcess Γ) (ack : Bool) : UlHarqProcess Γ :=
  let p := { p with harqFeedback := ack }
  if ack then p.reset else p

/-- The limit that `generate_tx` compares with. -/
def maxRetx (p : UlHarqProcess Γ) (limits : UlLimits) : Nat :=
  if p.isMsg3 then limits.maxHarqMsg3Tx else limits.maxHarqTx

/-- `generate_tx` -/
def generateTx (limits : UlLimits) (p : UlHarqProcess Γ) (ttiTx tempRnti : Nat) :
    UlHarqProcess Γ × TbActionUl Γ :=
  let action : TbActionUl Γ :=
    { currentTxNb := p.currentTxNb
      expectAck := true
      rnti := if p.isMsg3 then tempRnti else p.curGrant.rnti
      rv := if p.curGrant.rv > 0 then p.curGrant.rv else p.getRv
      txEnabled := true
      payloadPtr := p.pduPtr
      phyGrant := p.curGrant.phyGrant }
  let p := { p with currentIrv := (p.currentIrv + 1) % 4, ttiLastTx := ttiTx }
  -- This was the last transmission.
  if p.currentTxNb ≥ p.maxRetx limits then (p.reset, { action with expectAck := false })
  else (p, action)

/-- The index that `irv_of_rv` is read at. C's `%` is negative for a negative redundancy version,
which no uplink grant has. -/
def rvIndex (rv : Int) : Nat := (rv % 4).toNat

/-- `generate_retx` -/
def generateRetx (limits : UlLimits) (p : UlHarqProcess Γ) (ttiTx : Nat)
    (grant : Option (MacGrant Γ)) (tempRnti : Nat) : UlOutcome Γ :=
  let p := { p with currentTxNb := p.currentTxNb + 1 }
  let (p, action) :=
    match grant with
    | some g =>
      -- An adaptive retransmission takes its redundancy version from the grant.
      generateTx limits { p with currentIrv := irvOfRv (rvIndex g.rv), harqFeedback := false }
        ttiTx tempRnti
    | none =>
      -- A non-adaptive one is skipped after an ACK.
      if !p.harqFeedback then p.generateTx limits ttiTx tempRnti
      else (p, { phyGrant := default })
  { proc := p
    action := action
    calls := (if p.isMsg3 then [.contentionTimerReset] else []) ++ [.puschRetx ttiTx p.pid] }

/-- `generate_new_tx` -/
def generateNewTx (limits : UlLimits) (p : UlHarqProcess Γ) (ttiTx : Nat) (isMsg3 : Bool)
    (grant : MacGrant Γ) (tempRnti : Nat) : UlHarqProcess Γ × TbActionUl Γ :=
  generateTx limits
    { p with
      curGrant := grant
      harqFeedback := false
      isGrantConfigured := true
      currentTxNb := 0
      currentIrv := 0
      isMsg3 := isMsg3 }
    ttiTx tempRnti

section
variable (codes : RntiCodes) (limits : UlLimits)

/-- The condition of `run_tti` for a new transmission. In `!grant->rnti_type == SRSLTE_RNTI_TEMP`
the negation binds more tightly. -/
def isNewTx (p : UlHarqProcess Γ) (g : MacGrant Γ) : Bool :=
  ((if g.rntiType = 0 then 1 else 0) = codes.temp && g.ndi != p.ndi) ||
    (g.rntiType = 0 && !p.isGrantConfigured) || g.isFromRar

/-- The new transmission of `run_tti`, with the PDU that the mux returned. -/
def newTx (p : UlHarqProcess Γ) (ttiTx : Nat) (g : MacGrant Γ) (input : UlInput) : UlOutcome Γ :=
  let call := if g.isFromRar then .msg3Get g.nBytes else .pduGet g.nBytes ttiTx p.pid
  let p := { p with pduPtr := input.muxPdu }
  if input.muxPdu.isSome then
    let (p, action) := p.generateNewTx limits ttiTx g.isFromRar g input.tempRnti
    { proc := p, action := action, calls := [call] }
  else { proc := p, action := { phyGrant := default }, calls := [call] }

/-- `ul_harq_process::run_tti` -/
def runTti (p : UlHarqProcess Γ) (ttiTx : Nat) (grant : Option (MacGrant Γ)) (input : UlInput) :
    UlOutcome Γ :=
  match grant with
  | some g =>
    if p.isNewTx codes g then p.newTx limits ttiTx g input
    else p.generateRetx limits ttiTx (some g) input.tempRnti
  | none =>
    if p.isGrantConfigured then p.generateRetx limits ttiTx none input.tempRnti
    else { proc := p, action := { phyGrant := default } }

/-! ### The entries of `ul_harq_entity` -/

/-- `tti_harq` in `set_ack` -/
def ttiHarq (tti : Nat) : Nat := if tti < 4 then tti + 10240 - 4 else tti - 4

/-- The feedback is about the last transmission. -/
def takesAck (p : UlHarqProcess Γ) (tti : Nat) : Bool :=
  p.isGrantConfigured && p.ttiLastTx ≤ ttiHarq tti

/-- `set_ack` -/
def setAck (p : UlHarqProcess Γ) (tti : Nat) (ack : Bool) : UlHarqProcess Γ :=
  if p.takesAck tti then p.setHarqFeedback ack else p

/-- `ul_harq_entity::run_tti` -/
def entityRunTti (p : UlHarqProcess Γ) (tti : Nat) (grant : Option (MacGrant Γ)) (input : UlInput) :
    UlOutcome Γ :=
  p.runTti codes limits ((tti + 4) % 10240) grant input

/-- `harq_recv` -/
def harqRecv (p : UlHarqProcess Γ) (tti : Nat) (ack : Bool) (input : UlInput) : UlOutcome Γ :=
  (p.setAck tti ack).entityRunTti codes limits tti none input

/-- `new_grant_ul`. No process is used for SPS. -/
def newGrantUl (p : UlHarqProcess Γ) (g : MacGrant Γ) (input : UlInput) : UlOutcome Γ :=
  if g.rntiType = 0 || g.rntiType = codes.temp || g.rntiType = codes.rar then
    p.entityRunTti codes limits g.tti (some g) input
  else if g.rntiType = codes.sps && g.ndi then
    p.entityRunTti codes limits g.tti (some { g with ndi := input.ndiOfTti }) input
  else { proc := p, action := { phyGrant := default } }

/-- `new_grant_ul_ack` -/
def newGrantUlAck (p : UlHarqProcess Γ) (g : MacGrant Γ) (ack : Bool) (input : UlInput) :
    UlOutcome Γ :=
  (p.setAck g.tti ack).newGrantUl codes limits g input

end

end UlHarqProcess

/-- The entries that act on a process. `macReset` is `mac::reset`, and `reset` what is done when the
time alignment expires. -/
inductive UlEvent (Γ : Type)
  | newGrantUl (g : MacGrant Γ) (input : UlInput)
  | newGrantUlAck (g : MacGrant Γ) (ack : Bool) (input : UlInput)
  | harqRecv (tti : Nat) (ack : Bool) (input : UlInput)
  | reset
  | macReset
deriving DecidableEq, Repr

/-- One entry. -/
def UlHarqProcess.handle {Γ : Type} [Inhabited Γ] (codes : RntiCodes) (limits : UlLimits)
    (p : UlHarqProcess Γ) : UlEvent Γ → UlOutcome Γ
  | .newGrantUl g input => p.newGrantUl codes limits g input
  | .newGrantUlAck g ack input => p.newGrantUlAck codes limits g ack input
  | .harqRecv tti ack input => p.harqRecv codes limits tti ack input
  | .reset => { proc := p.reset, action := { phyGrant := default } }
  | .macReset => { proc := p.resetNdi, action := { phyGrant := default } }

end SrsUE.Mac
