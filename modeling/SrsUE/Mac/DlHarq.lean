import SrsUE.Mac.UlHarq

/-!
# `SrsUE.Mac.DlHarq`: downlink HARQ processes

The class `dl_harq_process` of `dl_harq.cc` (3GPP TS 36.321 Section 5.3.2), the entries of
`dl_harq_entity` as they act on the process that they address, and the part of
`phch_worker::work_imp` that takes a grant through them. A worker reports the decoding of a block
before the next grant of the same process.

What other code answers when it is asked comes with the grant, in `DlInput`. `srslte_tti_interval`
is a function of the library, so it is a parameter. The average number of retransmissions is left
out.
-/

set_option autoImplicit false

namespace SrsUE.Mac

/-- The values of `srslte_rnti_type_t` that the entity compares with. `SRSLTE_RNTI_USER` is 0. -/
structure DlRntiCodes where
  si : Nat
  temp : Nat
  sps : Nat
  nodup : [0, si, temp, sps].Nodup

/-- `tb_action_dl_t`. The callback and the soft buffer are there or not. -/
structure TbActionDl (Γ : Type) where
  decodeEnabled : Bool := false
  rv : Int := 0
  rnti : Nat := 0
  generateAck : Bool := false
  defaultAck : Bool := false
  generateAckCallback : Bool := false
  payloadPtr : Option Nat := none
  softbuffer : Bool := false
  phyGrant : Γ
deriving DecidableEq, Repr

/-- The calls that a process makes to the soft buffer and to the demux. -/
inductive DlCall
  | softbufferResetTbs (tbs : Nat)
  | softbufferReset
  | requestBuffer (pid nBytes : Nat)
  | pushPdu (pid : Nat) (buffer : Option Nat) (nBytes : Nat)
  | pushPduTempCrnti (pid : Nat) (buffer : Option Nat) (nBytes : Nat)
deriving DecidableEq, Repr

/-- `dl_harq_process`. The buffers of the demux have numbers. -/
structure DlHarqProcess (Γ : Type) where
  pid : Nat
  isNewTransmission : Bool
  payloadBufferPtr : Option Nat
  ack : Bool
  nRetx : Nat
  curGrant : MacGrant Γ
deriving DecidableEq, Repr

/-- What is read elsewhere: the buffer that the demux returns, if the time alignment timer is
expired, `last_temporal_crnti`, `si_window_start`, and what the PHY returns for the decoding and for
the callback. -/
structure DlInput where
  buffer : Option Nat := none
  taExpired : Bool := false
  lastTemporalCrnti : Nat := 0
  siWindowStart : Int := 0
  decodePdsch : Bool := false
  uecridSuccessful : Bool := false
deriving DecidableEq, Repr

/-- What an entry leaves. -/
structure DlOutcome (Γ : Type) where
  proc : DlHarqProcess Γ
  action : TbActionDl Γ
  calls : List DlCall := []
deriving DecidableEq, Repr

/-- `HARQ_BCCH_PID` -/
def harqBcchPid : Nat := 8

namespace DlHarqProcess

variable {Γ : Type} [Inhabited Γ]

/-- The process after the constructor and `init`. `is_new_transmission` and `n_retx` are not set. -/
def initial (pid : Nat) (isNewTransmission : Bool) (nRetx : Nat) : DlHarqProcess Γ where
  pid := pid
  isNewTransmission := isNewTransmission
  payloadBufferPtr := none
  ack := false
  nRetx := nRetx
  curGrant := { phyGrant := default }

/-- `reset`, which also resets the soft buffer. -/
def reset (p : DlHarqProcess Γ) : DlHarqProcess Γ :=
  { p with ack := false, payloadBufferPtr := none, curGrant := { phyGrant := default } }

/-- The redundancy version of a broadcast grant that has none. `ceilf(1.5*k)` is `(3 * k + 1) /
2`. -/
def bcchRv (g : MacGrant Γ) (siWindowStart : Int) : Int :=
  let k :=
    if g.tti / 10 % 2 = 0 && g.tti % 10 = 5 then g.tti / 20 % 4
    else (((g.tti : Int) - siWindowStart) % 4).toNat
  ((3 * k + 1) / 2 % 4 : Nat)

section
variable (ttiInterval : Nat → Nat → Nat)

/-- `calc_is_new_transmission` -/
def calcIsNewTransmission (p : DlHarqProcess Γ) (g : MacGrant Γ) : Bool :=
  let isNewTb :=
    !((ttiInterval g.tti p.curGrant.tti ≤ 8 && g.nBytes = p.curGrant.nBytes) || p.pid = harqBcchPid)
  (g.ndi != p.curGrant.ndi && !isNewTb) || isNewTb || (p.pid = harqBcchPid && g.rv = 0)

/-- What `new_grant_dl` does before it saves the grant. -/
def startTransmission (p : DlHarqProcess Γ) (g : MacGrant Γ) : DlHarqProcess Γ × List DlCall :=
  if p.calcIsNewTransmission ttiInterval g then
    ({ p with isNewTransmission := true, ack := false, nRetx := 0 },
      [.softbufferResetTbs (p.curGrant.nBytes * 8)])
  else ({ p with isNewTransmission := false }, [])

/-- `dl_harq_process::new_grant_dl` -/
def newGrantDl (codes : DlRntiCodes) (p : DlHarqProcess Γ) (g : MacGrant Γ) (input : DlInput) :
    DlOutcome Γ :=
  let g :=
    if p.pid = harqBcchPid && g.rv = -1 then { g with rv := bcchRv g input.siWindowStart } else g
  let (p, calls) := p.startTransmission ttiInterval g
  let p := { p with curGrant := { g with lastNdi := p.curGrant.ndi, lastTti := p.curGrant.tti } }
  let action : TbActionDl Γ := { defaultAck := p.ack, generateAck := true, phyGrant := default }
  let noAck := p.pid = harqBcchPid || input.taExpired
  if !p.ack then
    let p := { p with payloadBufferPtr := input.buffer }
    let calls := calls ++ [.requestBuffer p.pid p.curGrant.nBytes]
    if input.buffer.isNone then { proc := p, action := action, calls := calls }
    else
      { proc := { p with nRetx := p.nRetx + 1 }
        action :=
          { action with
            payloadPtr := p.payloadBufferPtr
            decodeEnabled := true
            rv := p.curGrant.rv
            rnti := p.curGrant.rnti
            softbuffer := true
            phyGrant := p.curGrant.phyGrant
            generateAck := !noAck
            generateAckCallback := !noAck && p.curGrant.rntiType = codes.temp }
        calls := calls }
  else { proc := p, action := { action with generateAck := !noAck }, calls := calls }

/-- `dl_harq_process::tb_decoded` -/
def tbDecoded (codes : DlRntiCodes) (p : DlHarqProcess Γ) (ack : Bool) :
    DlHarqProcess Γ × List DlCall :=
  let p := { p with ack := ack }
  if !ack then (p, [])
  else if p.pid = harqBcchPid then
    (p.reset, [.pushPdu p.pid p.payloadBufferPtr p.curGrant.nBytes, .softbufferReset])
  else if p.curGrant.rntiType = codes.temp then
    (p, [.pushPduTempCrnti p.pid p.payloadBufferPtr p.curGrant.nBytes])
  else (p, [.pushPdu p.pid p.payloadBufferPtr p.curGrant.nBytes])

/-- The grant that `dl_harq_entity::new_grant_dl` gives to a process. No process is used for SPS. -/
def entityGrant (codes : DlRntiCodes) (g : MacGrant Γ) (input : DlInput) : Option (MacGrant Γ) :=
  if g.rntiType ≠ codes.sps then
    some (if g.rntiType = codes.temp && input.lastTemporalCrnti ≠ g.rnti then { g with ndi := true }
      else g)
  else if g.ndi then some { g with ndi := false }
  else none

/-- `dl_harq_entity::new_grant_dl`. The PHY clears the action before it. -/
def entityNewGrantDl (codes : DlRntiCodes) (p : DlHarqProcess Γ) (g : MacGrant Γ)
    (input : DlInput) :
    DlOutcome Γ :=
  match entityGrant codes g input with
  | some g => p.newGrantDl ttiInterval codes g input
  | none => { proc := p, action := { phyGrant := default } }

/-- The reception of a block by `work_imp`. -/
def workDl (codes : DlRntiCodes) (p : DlHarqProcess Γ) (g : MacGrant Γ) (input : DlInput) :
    DlOutcome Γ :=
  let o := p.entityNewGrantDl ttiInterval codes g input
  if o.action.decodeEnabled then
    let (p, calls) := o.proc.tbDecoded codes input.decodePdsch
    { o with proc := p, calls := o.calls ++ calls }
  else o

end

end DlHarqProcess

/-- The acknowledgement that `work_imp` sends after an action. -/
def TbActionDl.uciAck {Γ : Type} (action : TbActionDl Γ) (input : DlInput) : Option Bool :=
  if action.generateAck then
    some (if action.decodeEnabled then
        if action.generateAckCallback then input.uecridSuccessful else input.decodePdsch
      else action.defaultAck)
  else none

end SrsUE.Mac
