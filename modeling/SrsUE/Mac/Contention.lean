import SrsUE.Mac.DlHarq
import SrsUE.Mac.Pdu
import SrsUE.Mac.PduProcess
import SrsUE.Mac.RaProc

/-!
# `SrsUE.Mac.Contention`: Msg3, Msg4 and contention resolution

The parts that take part in the contention resolution of a random access: the procedure itself, the
Msg3 buffer of the mux (`mux.cc`), the downlink HARQ processes (`dl_harq.cc`), the demux with its
queues (`demux.cc`, `pdu_queue.cc`), and the identity that RRC registers. `Contention.step` is one
action of any of them, so its runs are the interleavings of the threads.

A reception on the downlink is one action: the grant goes through `mac::new_grant_dl`, the PHY
decodes the block or not, and `tb_decoded` and the callback for the acknowledgement follow. A Msg3
is known here by the identity of the CCCH SDU in it.
-/

set_option autoImplicit false

namespace SrsUE.Mac

open SrsUE.Rlc (Bytes SrslteBit)

/-! ### The demux -/

/-- A PDU in the queue of the demux: a buffer, and the length of the PDU in it. -/
structure QueuedPdu where
  buff : Bytes
  nofBytes : Nat
deriving DecidableEq, Repr

/-- `init_rx` and `parse_packet` of one of the two messages of the demux, each with 20
subheaders. -/
def QueuedPdu.parse (p : QueuedPdu) : Option (List RxSubh) :=
  (readSubheaders false 20 p.buff).map fun (ss, rest) =>
    correctLast p.nofBytes (readPayloads (p.buff.length - rest.length) ss)

/-- `get_con_res_id`, with the bytes from the payload on. -/
def getConResId (payload : Bytes) : Nat :=
  (payload.getD 5 0).toNat ||| (payload.getD 4 0).toNat <<< 8 |||
    (payload.getD 3 0).toNat <<< 16 |||
    (payload.getD 2 0).toNat <<< 24 ||| (payload.getD 1 0).toNat <<< 32 |||
    (payload.getD 0 0).toNat <<< 40

/-- The identities in a PDU that was parsed, in their order. -/
def QueuedPdu.conResIds (p : QueuedPdu) (ss : List RxSubh) : List Nat :=
  ss.filterMap fun s =>
    if s.lcid = lcidConResId then some (getConResId (p.buff.drop s.payload)) else none

/-- What `process_sch_pdu` writes to RLC for a PDU that was parsed. -/
def QueuedPdu.sdus (p : QueuedPdu) (ss : List RxSubh) : List (Nat × Bytes) :=
  (ss.filter RxSubh.isSdu).map fun s => (s.lcid, (p.buff.drop s.payload).take s.nofBytes)

/-- What `process_pdu` writes to RLC. -/
def QueuedPdu.process (p : QueuedPdu) : List (Nat × Bytes) :=
  match p.parse with
  | some ss => p.sdus ss
  | none => []

/-- What `process_pdus` writes to RLC: the queues of the HARQ processes one after the other. -/
def processQueues (pdus : List (Nat × QueuedPdu)) : List (Nat × Bytes) :=
  (List.range nofHarqPid).flatMap fun pid =>
    (pdus.filter (·.1 = pid)).flatMap (·.2.process)

/-- The loop of `push_pdu_temp_crnti`: the callback gets one identity after the other until it
accepts one. -/
def offerIds : RaProc → List Nat → RaProc × Bool
  | r, [] => (r, false)
  | r, id :: ids =>
    let (r, isUecridSuccessful) := r.contentionResolutionIdReceived id
    if isUecridSuccessful then (r, true) else offerIds r ids

/-! ### The Msg3 buffer -/

/-- A Msg3, by the identity that RRC registered for the CCCH SDU in it. -/
structure Msg3 where
  ccch : Option Nat
deriving DecidableEq, Repr

/-- `msg3_buff` and `msg3_has_been_transmitted` -/
structure Msg3Buffer where
  pdu : Option Msg3 := none
  hasBeenTransmitted : Bool := false
deriving DecidableEq, Repr

/-- `msg3_get`, with what `pdu_get` returns if it is asked. -/
def Msg3Buffer.msg3Get (b : Msg3Buffer) (pduGet : Option Msg3) : Msg3Buffer × Option Msg3 :=
  match b.pdu.or pduGet with
  | some msg3 => ({ pdu := some msg3, hasBeenTransmitted := true }, some msg3)
  | none => (b, none)

/-! ### Receptions -/

/-- The types of the RNTIs that MAC has the PHY search for and whose grants go to a HARQ process. -/
inductive DlSearch
  | user
  | si
  | temp
deriving DecidableEq, Repr

def DlSearch.rntiType (codes : DlRntiCodes) : DlSearch → Nat
  | .user => 0
  | .si => codes.si
  | .temp => codes.temp

/-- A block on the downlink: the RNTI that was found, the grant, what is read elsewhere, if the PHY
decodes the block, and the bytes that are then in the buffer. They are the PDU and what follows
it. -/
structure Reception where
  search : DlSearch
  grant : MacGrant Unit
  buffer : Option Nat := some 0
  taExpired : Bool := false
  siWindowStart : Int := 0
  decodePdsch : Bool := true
  buff : Bytes := []
deriving DecidableEq, Repr

/-- The grant as the PHY gives it. -/
def Reception.macGrant (codes : DlRntiCodes) (r : Reception) : MacGrant Unit :=
  { r.grant with rntiType := r.search.rntiType codes }

/-- `harq_pid` -/
def Reception.harqPid (r : Reception) : Fin (nofHarqPid + 1) :=
  if r.search = .si then ⟨harqBcchPid, by decide⟩
  else ⟨r.grant.pid % nofHarqPid, Nat.lt_succ_of_lt (Nat.mod_lt _ (by decide))⟩

/-- The block, if it is decoded. -/
def Reception.pdu (r : Reception) : QueuedPdu := ⟨r.buff, r.grant.nBytes⟩

/-! ### The system -/

/-- The parts, with the SDUs that RLC was given, the identities in the Msg3s that were transmitted
in the current procedure, the block that each HARQ process decoded last, and the acknowledgement of
the last reception. -/
structure Contention where
  ra : RaProc := {}
  msg3 : Msg3Buffer := {}
  procs : Vector (DlHarqProcess Unit) (nofHarqPid + 1)
  lastTemporalCrnti : Nat
  isUecridSuccessful : Bool
  pdus : List (Nat × QueuedPdu) := []
  rlc : List (Nat × Bytes) := []
  sentIds : List Nat := []
  blocks : Vector (Option QueuedPdu) (nofHarqPid + 1) := .replicate _ none
  uciAck : Option Bool := none
deriving DecidableEq, Repr

/-- The actions. The callbacks of the demux are part of `dlReception`, and a reset of the procedure
is part of `macReset`. -/
inductive ContentionEvent
  | step (cfg : MacCfg) (env : StepEnv)
  | newGrantDl (nBytes tti : Nat)
  | tbDecodedOk (rarPduBuffer : Bytes) (timeAlignmentRunning : Bool)
  | pdcchToCrnti (containsUplinkGrant : Bool)
  | timerExpired
  | startMacOrder (msgLenBits : Nat)
  | startPdcchOrder
  | msg3Get (pduGet : Option Msg3)
  | setContentionId (id : Nat)
  | dlReception (r : Reception)
  | processPdus
  | macReset
deriving DecidableEq, Repr

namespace Contention

/-- The members that no constructor sets: `is_uecrid_successful`, `last_temporal_crnti`, and
`is_new_transmission` and `n_retx` of each process. -/
def initial (isUecridSuccessful : Bool) (lastTemporalCrnti : Nat) (unset : Nat → Bool × Nat) :
    Contention where
  procs := .ofFn fun pid => .initial pid (unset pid).1 (unset pid).2
  lastTemporalCrnti := lastTemporalCrnti
  isUecridSuccessful := isUecridSuccessful

/-- What `step` of the procedure calls in the mux. A procedure begins with `step_initialization`. -/
def afterStep (s : Contention) (ra : RaProc) : Contention :=
  { s with
    ra := ra
    msg3 := if .msg3Flush ∈ ra.calls then {} else s.msg3
    sentIds := if s.ra.state = .initialization then [] else s.sentIds }

/-- `push_pdu_temp_crnti` -/
def pushPduTempCrnti (s : Contention) (pid : Nat) (pdu : QueuedPdu) : Option Contention :=
  if 0 < pdu.nofBytes then
    pdu.parse.map fun ss =>
      let (ra, isUecridSuccessful) := offerIds s.ra (pdu.conResIds ss)
      { s with ra := ra, isUecridSuccessful := isUecridSuccessful, pdus := s.pdus ++ [(pid, pdu)] }
  else some s

/-- `push_pdu`. A block of the broadcast process goes to RLC past the queues, which is left out. -/
def pushPdu (s : Contention) (pid : Nat) (pdu : QueuedPdu) : Contention :=
  if pid < nofHarqPid ∧ 0 < pdu.nofBytes then { s with pdus := s.pdus ++ [(pid, pdu)] } else s

/-- What a process calls in the demux. -/
def demux (buff : Bytes) (s : Contention) : DlCall → Option Contention
  | .pushPdu pid _ nBytes => some (s.pushPdu pid ⟨buff, nBytes⟩)
  | .pushPduTempCrnti pid _ nBytes => s.pushPduTempCrnti pid ⟨buff, nBytes⟩
  | _ => some s

/-- What the HARQ process and the PHY are told with a reception. -/
def dlInput (s : Contention) (r : Reception) : DlInput where
  buffer := r.buffer
  taExpired := r.taExpired
  lastTemporalCrnti := s.lastTemporalCrnti
  siWindowStart := r.siWindowStart
  decodePdsch := r.decodePdsch
  uecridSuccessful := s.isUecridSuccessful

section
variable (ttiInterval : Nat → Nat → Nat) (codes : DlRntiCodes) (L : SrslteBit)

/-- The downlink part of `work_imp`, with `mac::new_grant_dl` and `mac::tb_decoded`. -/
def receive (s : Contention) (r : Reception) : Option Contention :=
  let o := (s.procs.get r.harqPid).workDl ttiInterval codes (r.macGrant codes) (s.dlInput r)
  let s := { s with
    ra :=
      if r.search = .user && s.ra.state = .contentionResolution then s.ra.pdcchToCrnti false
      else s.ra
    procs := s.procs.set r.harqPid o.proc
    lastTemporalCrnti := if r.search = .temp then r.grant.rnti else s.lastTemporalCrnti
    blocks :=
      if o.action.decodeEnabled && r.decodePdsch then s.blocks.set r.harqPid (some r.pdu)
      else s.blocks }
  -- The callback is called after `tb_decoded`, so it sees what the demux made of this block.
  (o.calls.foldlM (demux r.buff) s).map fun s => { s with uciAck := o.action.uciAck (s.dlInput r) }

/-- An action of a part. The calls of the procedure are those of the last action. -/
def step (s : Contention) : ContentionEvent → Option Contention
  | .step cfg env =>
    some (s.afterStep ({ s.ra with calls := [] }.step ttiInterval cfg
      { env with msg3IsTransmitted := s.msg3.hasBeenTransmitted }))
  | .newGrantDl nBytes tti => some { s with ra := s.ra.newGrantDl nBytes tti }
  | .tbDecodedOk rarPduBuffer running =>
    (s.ra.tbDecodedOk L rarPduBuffer running).map fun ra => { s with ra := ra }
  | .pdcchToCrnti containsUplinkGrant => some { s with ra := s.ra.pdcchToCrnti containsUplinkGrant }
  | .timerExpired => some { s with ra := s.ra.timerExpired }
  | .startMacOrder msgLenBits => some { s with ra := s.ra.startMacOrder msgLenBits }
  | .startPdcchOrder => some { s with ra := s.ra.startPdcchOrder }
  | .msg3Get pduGet =>
    let (msg3, sent) := s.msg3.msg3Get pduGet
    some { s with msg3 := msg3, sentIds := s.sentIds ++ (sent.bind Msg3.ccch).toList }
  | .setContentionId id =>
    some { s with ra := { s.ra with rntis := { s.ra.rntis with contentionId := id } } }
  | .dlReception r => s.receive ttiInterval codes r
  | .processPdus => some { s with pdus := [], rlc := s.rlc ++ processQueues s.pdus }
  | .macReset =>
    some { s with
      ra := { s.ra.reset with rntis := {} }
      msg3 := {}
      procs := s.procs.map DlHarqProcess.reset }

end

end Contention

end SrsUE.Mac
