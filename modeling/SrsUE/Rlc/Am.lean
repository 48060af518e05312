import SrsUE.Lib.SeqNum
import SrsUE.Rlc.AmPdu

/-!
# `SrsUE.Rlc.Am`: the acknowledged mode entity

`RlcAm` is the state of an `rlc_am` object and the functions below are its methods, in the
order of `rlc_am.cc`. The SDUs handed to PDCP and the calls of `rrc->max_retx_attempted`
are recorded in the state, in the order of the calls. A method that returns an `Option`
returns `none` where the source has no defined behaviour (`build_retx_pdu` on a queue of
stale entries, a reader that runs past its input) or blocks (`write_sdu` on a full queue).

A `while` loop of the source over sequence numbers takes a bound on its rounds. The bound
1024 is the number of sequence numbers, so a loop that would need more never ends.
-/

set_option autoImplicit false

namespace SrsUE.Rlc

open SrsUE.Lib

/-- `rlc_amd_rx_pdu_t` -/
structure AmdRxPdu where
  header : AmdPduHeader
  buf : Bytes
deriving DecidableEq, Repr

/-- `rlc_amd_tx_pdu_t` -/
structure AmdTxPdu where
  header : AmdPduHeader
  buf : Bytes
  retxCount : Nat := 0
  isAcked : Bool := false
deriving DecidableEq, Repr

/-- `rlc_amd_retx_t` -/
structure AmdRetx where
  sn : Nat
  isSegment : Bool
  soStart : Nat
  soEnd : Nat
deriving DecidableEq, Repr

/-- The configurable parameters that `configure` sets. -/
structure AmConfig where
  tPollRetx : Int := 0
  pollPdu : Int := 0
  pollByte : Int := 0
  maxRetxThresh : Int := 0
  tReordering : Int := 0
  tStatusProhibit : Int := 0
deriving DecidableEq, Repr

/-- The state of an `rlc_am` object. The defaults are those of its constructor. -/
structure RlcAm where
  cfg : AmConfig := {}
  txSduQueue : List Bytes := []
  txSdu : Option Bytes := none
  txWindow : Dict Nat AmdTxPdu := Dict.empty
  retxQueue : List AmdRetx := []
  rxWindow : Dict Nat AmdRxPdu := Dict.empty
  rxSegments : Dict Nat (List AmdRxPdu) := Dict.empty
  rxSdu : Option Bytes := none
  pollReceived : Bool := false
  doStatus : Bool := false
  status : StatusPdu := {}
  vtA : Nat := 0
  vtMs : Nat := 512
  vtS : Nat := 0
  pollSn : Nat := 0
  pduWithoutPoll : Nat := 0
  byteWithoutPoll : Nat := 0
  vrR : Nat := 0
  vrMr : Nat := 512
  vrX : Nat := 0
  vrMs : Nat := 0
  vrH : Nat := 0
  pollRetxTimeout : Timeout := {}
  reorderingTimeout : Timeout := {}
  statusProhibitTimeout : Timeout := {}
  /-- The SDUs passed to `pdcp->write_pdu`. -/
  pdcp : List Bytes := []
  /-- The number of calls of `rrc->max_retx_attempted`. -/
  maxRetxAttempted : Nat := 0

/-- `RX_MOD_BASE(x)`. The source subtracts 32-bit values and 1024 divides `2 ^ 32`. -/
def RlcAm.rxModBase (st : RlcAm) (x : Nat) : Nat := modDist 1024 x st.vrR

/-- `TX_MOD_BASE(x)` -/
def RlcAm.txModBase (st : RlcAm) (x : Nat) : Nat := modDist 1024 x st.vtA

/-- `configure` -/
def configure (st : RlcAm) (cnfg : AmConfig) : RlcAm := { st with cfg := cnfg }

/-- `reset`. The SDU buffers are emptied in place, and neither the poll retransmit nor the
status prohibit timeout is touched. -/
def reset (st : RlcAm) : RlcAm :=
  { st with
    reorderingTimeout := st.reorderingTimeout.reset
    txSdu := st.txSdu.map fun _ => []
    rxSdu := st.rxSdu.map fun _ => []
    vtA := 0, vtMs := 512, vtS := 0, pollSn := 0
    vrR := 0, vrMr := 512, vrX := 0, vrMs := 0, vrH := 0
    pduWithoutPoll := 0, byteWithoutPoll := 0
    pollReceived := false, doStatus := false
    txSduQueue := []
    rxSegments := Dict.empty, rxWindow := Dict.empty, txWindow := Dict.empty
    retxQueue := [] }

/-- `empty_queue` -/
def emptyQueue (st : RlcAm) : RlcAm := { st with txSduQueue := [] }

/-- `rlc_entity::reset` and then `rlc_entity::init`, for the `am` member. `init` of `rlc_am` sets
no variable of its state. -/
def entityReset (st : RlcAm) : RlcAm := reset (emptyQueue st)

/-! ### PDCP interface -/

/-- `write_sdu` -/
def writeSdu (st : RlcAm) (sdu : Bytes) : Option RlcAm :=
  if st.txSduQueue.length < txSduQueueCapacity then
    some { st with txSduQueue := st.txSduQueue ++ [sdu] }
  else none

/-! ### Timer checks -/

/-- `status_prohibited` -/
def statusProhibited (st : RlcAm) (now : Nat) : Bool :=
  st.statusProhibitTimeout.running && !st.statusProhibitTimeout.expired now

/-- `poll_retx` -/
def pollRetx (st : RlcAm) (now : Nat) : Bool :=
  st.pollRetxTimeout.running && st.pollRetxTimeout.expired now

/-- The loops `while(rx_window.end() != it)` that move `vr_ms` to the next sequence number
that is not in `rx_window`. -/
def skipReceived (rxWindow : Dict Nat AmdRxPdu) : Nat → Nat → Nat
  | 0, sn => sn
  | rounds + 1, sn =>
    if (rxWindow sn).isSome then skipReceived rxWindow rounds ((sn + 1) % 1024) else sn

/-- `check_reordering_timeout` -/
def checkReorderingTimeout (st : RlcAm) (now : Nat) : RlcAm :=
  if st.reorderingTimeout.running && st.reorderingTimeout.expired now then
    let st := { st with
      reorderingTimeout := st.reorderingTimeout.reset
      vrMs := skipReceived st.rxWindow 1024 st.vrX
      -- A poll that waited for missing PDUs is answered now.
      doStatus := st.doStatus || st.pollReceived }
    -- Something is still missing below `vr_h`.
    if st.rxModBase st.vrH > st.rxModBase st.vrMs then
      { st with
        reorderingTimeout := st.reorderingTimeout.start now st.cfg.tReordering
        vrX := st.vrH }
    else st
  else st

/-! ### Helpers of the MAC interface -/

/-- `poll_required` -/
def pollRequired (st : RlcAm) (now : Nat) : Bool :=
  (decide (0 < st.cfg.pollPdu) && decide (st.cfg.pollPdu < st.pduWithoutPoll))
  || (decide (0 < st.cfg.pollByte) && decide (st.cfg.pollByte < st.byteWithoutPoll))
  || pollRetx st now

/-- The state after the poll bit is set in a PDU. -/
def setPoll (st : RlcAm) (now : Nat) : RlcAm :=
  { st with
    pollSn := st.vtS
    pduWithoutPoll := 0
    byteWithoutPoll := 0
    pollRetxTimeout := st.pollRetxTimeout.start now st.cfg.tPollRetx }

/-- The loop of `prepare_status`: a NACK for each sequence number from `i` up to `vr_ms`
that is not in `rx_window`. -/
def collectNacks (st : RlcAm) : Nat → Nat → List StatusNack
  | 0, _ => []
  | rounds + 1, i =>
    -- The NACK is for the full PDU, also where segments of it have arrived.
    if st.rxModBase i < st.rxModBase st.vrMs then
      (if (st.rxWindow i).isNone then [{ nackSn := i }] else [])
        ++ collectNacks st rounds ((i + 1) % 1024)
    else []

/-- `prepare_status`. It returns the packed length of the new `status`. -/
def prepareStatus (st : RlcAm) : RlcAm :=
  { st with status := { ackSn := st.vrMs, nacks := collectNacks st 1024 st.vrR } }

/-- The size of the segment that `required_buffer_size` computes for a partial entry: the
loop over the length indicators of the old header counts those that the range
`[so_start, so_end)` needs. -/
def neededLis (soStart soEnd : Nat) : Nat → List Nat → Nat
  | _, [] => 0
  | lower, li :: lis =>
    if soEnd ≤ lower then 0
    else (if soStart < lower + li ∧ lower < soEnd then 1 else 0)
      + neededLis soStart soEnd (lower + li) lis

/-- `required_buffer_size` for the entry `tx` of `tx_window`. -/
def requiredBufferSize (tx : AmdTxPdu) (retx : AmdRetx) : Nat :=
  if !retx.isSegment then amPackedLength tx.header + tx.buf.length
  else 4 + (3 * neededLis retx.soStart retx.soEnd 0 tx.header.li + 1) / 2
    + sub32 retx.soEnd retx.soStart

/-- `retx_queue_has_sn` -/
def retxQueueHasSn (st : RlcAm) (sn : Nat) : Bool := st.retxQueue.any fun r => r.sn == sn

/-- `inside_rx_window` -/
def insideRxWindow (st : RlcAm) (sn : Nat) : Bool :=
  decide (st.rxModBase st.vrR ≤ st.rxModBase sn)
    && decide (st.rxModBase sn < st.rxModBase st.vrMr)

/-! ### Building status PDUs and retransmissions -/

section
variable (L : SrslteBit)

/-- `build_status_pdu`. It sends the stored `status`, which `prepare_status` computed
earlier. -/
def buildStatusPdu (st : RlcAm) (now nofBytes : Nat) : RlcAm × Bytes :=
  if statusPackedLength st.status ≤ nofBytes then
    ({ st with
        doStatus := false
        pollReceived := false
        statusProhibitTimeout :=
          if 0 < st.cfg.tStatusProhibit then
            st.statusProhibitTimeout.start now st.cfg.tStatusProhibit
          else st.statusProhibitTimeout },
      writeStatusPdu L st.status)
  -- A grant that is too small leaves the status due.
  else (st, [])

end

/-- What the loop of `build_segment` changes: the start `lower` of the current SDU piece,
the end `so_end` of the segment, and the framing bits and length indicators of the new
header. -/
structure SegmentLoop where
  lower : Nat := 0
  soEnd : Nat
  fi : FiField
  li : List Nat := []
deriving DecidableEq, Repr

/-- `so_end` cut down to what the grant leaves behind a header with the given length
indicators. -/
def shrinkSoEnd (nofBytes soStart : Nat) (li : List Nat) (soEnd : Nat) : Nat :=
  let pduSpace := sub32 nofBytes (amPackedLength { rf := true, li := li })
  if pduSpace < sub32 soEnd soStart then add32 soStart pduSpace else soEnd

/-- The part of `build_segment`'s loop for a piece that the segment needs. -/
def addSegmentLi (soStart upper : Nat) (s : SegmentLoop) : SegmentLoop :=
  let fi := if 0 < s.lower ∧ s.lower = soStart then s.fi &&& fiNotEndAligned else s.fi
  { s with
    fi := if upper = s.soEnd then fi &&& fiNotStartAligned else fi
    li := s.li ++ [sub32 (upper - s.lower - (upper - s.soEnd)) (soStart - s.lower)] }

/-- The loop of `build_segment` over the length indicators of the old header. At its head
`upper` and `lower` agree. -/
def buildSegmentLoop (nofBytes soStart : Nat) : List Nat → SegmentLoop → SegmentLoop
  | [], s => s
  | oldLi :: lis, s =>
    if s.soEnd ≤ s.lower then s
    else
      let upper := s.lower + oldLi
      -- The header is measured without the length indicator that is added next.
      let s := { s with soEnd := shrinkSoEnd nofBytes soStart s.li s.soEnd }
      let s := if soStart < upper ∧ s.lower < s.soEnd then addSegmentLi soStart upper s else s
      buildSegmentLoop nofBytes soStart lis { s with lower := upper }

/-- The segment `build_segment` cuts from byte `soStart` on: the state of its loop at the
end. `soEnd` is the end of the range still to send. -/
def cutSegment (header : AmdPduHeader) (nofBytes soStart soEnd : Nat) : SegmentLoop :=
  buildSegmentLoop nofBytes soStart header.li
    { soEnd := shrinkSoEnd nofBytes soStart [] soEnd
      fi := if soStart = 0 ∧ startAligned header.fi then
          fiNotStartOrEndAligned &&& fiNotEndAligned
        else fiNotStartOrEndAligned }

/-- `build_segment` for the entry `retx` at the front of `retx_queue`, whose PDU is `tx`:
the new state, and the header and data of the segment. A grant that leaves nothing behind
the fixed header produces no segment. -/
def buildSegment (st : RlcAm) (nofBytes : Nat) (tx : AmdTxPdu) (retx : AmdRetx)
    (rest : List AmdRetx) : RlcAm × Option (AmdPduHeader × Bytes) :=
  let soStart := if retx.isSegment then retx.soStart else 0
  let soEnd := if retx.isSegment then retx.soEnd else tx.buf.length
  if nofBytes ≤ amPackedLength { rf := true } then (st, none)
  else
    let s := cutSegment tx.header nofBytes soStart soEnd
    let header : AmdPduHeader :=
      { dc := .dataPdu, rf := true, fi := s.fi, sn := tx.header.sn, so := soStart, li := s.li }
    let data := copyBytes tx.buf soStart (sub32 s.soEnd soStart)
    if tx.buf.length = s.soEnd then
      -- The segment ends the PDU.
      ({ st with retxQueue := rest },
        some ({ header with
            lsf := true
            fi := if endAligned tx.header.fi then s.fi &&& fiNotStartAligned else s.fi }, data))
    else if retx.soEnd = s.soEnd then
      -- It ends the range of the entry.
      ({ st with retxQueue := rest }, some (header, data))
    else
      -- The rest stays in the queue, and the length indicator of the SDU that is cut goes.
      ({ st with
          retxQueue := { retx with isSegment := true, soStart := s.soEnd } :: rest },
        some ({ header with li := s.li.dropLast }, data))

/-- The bytes of a PDU as they are written to `payload`, none when there is no PDU. -/
def pduBytes : Option (AmdPduHeader × Bytes) → Bytes
  | none => []
  | some (header, data) => writeDataPduHeader header ++ data

/-- The whole retransmission in `build_retx_pdu` of the entry `retx`, whose PDU is `tx`. -/
def retransmitPdu (st : RlcAm) (now : Nat) (tx : AmdTxPdu) (retx : AmdRetx)
    (rest : List AmdRetx) : RlcAm × Bytes :=
  let poll := pollRequired st now
  let st := if poll then setPoll st now else st
  let count := tx.retxCount + 1
  ({ st with
      retxQueue := rest
      txWindow := st.txWindow.insert retx.sn { tx with retxCount := count }
      -- The comparison is unsigned, so a negative threshold is out of reach.
      maxRetxAttempted :=
        if 0 ≤ st.cfg.maxRetxThresh ∧ st.cfg.maxRetxThresh ≤ count then st.maxRetxAttempted + 1
        else st.maxRetxAttempted },
    writeDataPduHeader { tx.header with p := poll } ++ tx.buf)

/-- The entries of `retx_queue` from the first one on whose PDU is still in `tx_window`.
`build_retx_pdu` drops the others. -/
def liveRetx (st : RlcAm) : List AmdRetx :=
  st.retxQueue.dropWhile fun retx => (st.txWindow retx.sn).isNone

/-- `build_retx_pdu`. The source takes the front of an empty deque when no entry is
live. -/
def buildRetxPdu (st : RlcAm) (now nofBytes : Nat) : Option (RlcAm × Bytes) :=
  match liveRetx st with
  | [] => none
  | retx :: rest =>
    match st.txWindow retx.sn with
    | none => none
    | some tx =>
      let st := { st with retxQueue := retx :: rest }
      if retx.isSegment || decide (nofBytes < requiredBufferSize tx retx) then
        let (st, segment) := buildSegment st nofBytes tx retx rest
        some (st, pduBytes segment)
      else some (retransmitPdu st now tx retx rest)

/-! ### Building new data PDUs -/

/-- The local variables of `build_data_pdu` while it fills the PDU. -/
structure PduBuild where
  li : List Nat := []
  headLen : Nat
  lastLi : Nat := 0
  pduSpace : Nat
  pdu : Bytes := []
  txSdu : Option Bytes
  queue : List Bytes
deriving DecidableEq, Repr

/-- Move as much of `sdu` into the PDU as fits. The rest stays in `tx_sdu`. -/
def PduBuild.addSdu (b : PduBuild) (sdu : Bytes) : PduBuild :=
  let toMove := if sdu.length ≤ b.pduSpace - b.headLen then sdu.length
    else b.pduSpace - b.headLen
  { b with
    lastLi := toMove
    pdu := b.pdu ++ sdu.take toMove
    txSdu := if sdu.length - toMove = 0 then none else some (sdu.drop toMove)
    pduSpace := if toMove < b.pduSpace then b.pduSpace - toMove else 0 }

/-- The loop of `build_data_pdu` that pulls SDUs from the queue. -/
def pullSdus : List Bytes → PduBuild → PduBuild
  | [], b => { b with queue := [] }
  | sdu :: queue, b =>
    if b.headLen < b.pduSpace then
      let li := if 0 < b.lastLi then b.li ++ [b.lastLi] else b.li
      let headLen := amPackedLength { li := li }
      -- Nothing fits behind the longer header. The length indicator goes, and `head_len` stays.
      if b.pduSpace ≤ headLen then
        { b with li := li.dropLast, headLen := headLen, queue := sdu :: queue }
      else pullSdus queue ({ b with li := li, headLen := headLen }.addSdu sdu)
    else { b with queue := sdu :: queue }

/-- The PDU that `build_data_pdu` fills from `tx_sdu` and the queue. -/
def fillPdu (txSdu : Option Bytes) (queue : List Bytes) (nofBytes : Nat) : PduBuild :=
  let b : PduBuild :=
    { headLen := amPackedLength {}, pduSpace := nofBytes, txSdu := txSdu, queue := queue }
  pullSdus queue (match txSdu with
    | some sdu => b.addSdu sdu
    | none => b)

/-- The framing bits of a new PDU, from `tx_sdu` before and after it is filled. -/
def dataPduFi (before after : Option Bytes) : FiField :=
  let fi := if before.isSome then fiStartAndEndAligned ||| fiNotStartAligned
    else fiStartAndEndAligned
  if after.isSome then fi ||| fiNotEndAligned else fi

/-- `build_data_pdu`: the new state, and the header and data of the PDU. -/
def buildDataPdu (st : RlcAm) (now nofBytes : Nat) : RlcAm × Option (AmdPduHeader × Bytes) :=
  if st.txSdu.isNone ∧ st.txSduQueue.length = 0 then (st, none)
  else if nofBytes ≤ amPackedLength {} then (st, none)
  else
    let b := fillPdu st.txSdu st.txSduQueue nofBytes
    let fi := dataPduFi st.txSdu b.txSdu
    let st := { st with
      txSdu := b.txSdu
      txSduQueue := b.queue
      pduWithoutPoll := st.pduWithoutPoll + 1
      byteWithoutPoll := st.byteWithoutPoll + (b.pdu.length + b.headLen) }
    -- This PDU is counted when the poll bit is decided.
    let poll := pollRequired st now
    let st := if poll then setPoll st now else st
    let header : AmdPduHeader :=
      { dc := .dataPdu, p := poll, fi := fi, sn := st.vtS, li := b.li }
    ({ st with
        vtS := (st.vtS + 1) % 1024
        txWindow := st.txWindow.insert header.sn { header := header, buf := b.pdu } },
      some (header, b.pdu))

/-! ### Reassembly and delivery -/

/-- The loop over the length indicators in `reassemble_rx_sdus`: each one completes the SDU
in `rx_sdu` with that many bytes of the PDU and hands it to PDCP. The result is the rest of
the PDU, the new `rx_sdu` and the SDUs handed over. -/
def deliverLis : List Nat → Bytes → Bytes → Bytes × Bytes × List Bytes
  | [], buf, rxSdu => (buf, rxSdu, [])
  | len :: lis, buf, rxSdu =>
    let (buf', rxSdu', sdus) := deliverLis lis (buf.drop len) []
    (buf', rxSdu', (rxSdu ++ buf.take len) :: sdus)

/-- One round of the loop of `reassemble_rx_sdus`, for the PDU at `vr_r`. -/
def reassemblePdu (st : RlcAm) (pdu : AmdRxPdu) : RlcAm :=
  let (buf, rxSdu, sdus) := deliverLis pdu.header.li pdu.buf (st.rxSdu.getD [])
  let rxSdu := rxSdu ++ buf
  { st with
    rxSdu := some (if endAligned pdu.header.fi then [] else rxSdu)
    pdcp := st.pdcp ++ sdus ++ (if endAligned pdu.header.fi then [rxSdu] else [])
    rxWindow := st.rxWindow.erase st.vrR
    vrR := (st.vrR + 1) % 1024
    vrMr := (st.vrMr + 1) % 1024 }

/-- The loop of `reassemble_rx_sdus`. -/
def reassembleLoop : Nat → RlcAm → RlcAm
  | 0, st => st
  | rounds + 1, st =>
    match st.rxWindow st.vrR with
    | some pdu => reassembleLoop rounds (reassemblePdu st pdu)
    | none => st

/-- `reassemble_rx_sdus` -/
def reassembleRxSdus (st : RlcAm) : RlcAm :=
  reassembleLoop 1024 { st with rxSdu := some (st.rxSdu.getD []) }

/-! ### Received data PDUs -/

/-- The poll bit of a PDU that is discarded. -/
def pollDiscarded (st : RlcAm) (header : AmdPduHeader) : RlcAm :=
  { st with doStatus := st.doStatus || header.p }

/-- The update of `vr_h` for a received sequence number. -/
def updateVrH (st : RlcAm) (sn : Nat) : RlcAm :=
  if st.rxModBase st.vrH ≤ st.rxModBase sn then { st with vrH := (sn + 1) % 1024 } else st

/-- The poll bit of a PDU that is kept (36.322 v10 Section 5.2.3). -/
def checkPollBit (st : RlcAm) (header : AmdPduHeader) : RlcAm :=
  if header.p then
    { st with
      pollReceived := true
      -- Otherwise the answer waits for the reordering timer.
      doStatus := st.doStatus
        || decide (st.rxModBase header.sn < st.rxModBase st.vrMs)
        || decide (st.rxModBase st.vrMr ≤ st.rxModBase header.sn) }
  else st

/-- The update of the reordering variables and timers (36.322 v10.0.0 Section
5.1.3.2.3). -/
def updateReordering (st : RlcAm) (now : Nat) : RlcAm :=
  let st :=
    -- `vr_x` is reached, or it is outside of the window.
    if st.reorderingTimeout.running
        && (decide (st.vrX = st.vrR)
          || (decide (st.rxModBase st.vrX < st.rxModBase st.vrR)
            || decide (st.rxModBase st.vrMr < st.rxModBase st.vrX) && decide (st.vrX ≠ st.vrMr)))
    then { st with reorderingTimeout := st.reorderingTimeout.reset } else st
  if !st.reorderingTimeout.running && decide (st.rxModBase st.vrR < st.rxModBase st.vrH) then
    { st with
      reorderingTimeout := st.reorderingTimeout.start now st.cfg.tReordering
      vrX := st.vrH }
  else st

/-- The part of `handle_data_pdu` that writes a PDU to `rx_window` and updates `vr_h`,
`vr_ms` and the poll state. -/
def storeDataPdu (st : RlcAm) (payload : Bytes) (header : AmdPduHeader) : RlcAm :=
  let st := { st with
    rxWindow := st.rxWindow.insert header.sn { header := header, buf := payload } }
  let st := updateVrH st header.sn
  let st := { st with vrMs := skipReceived st.rxWindow 1024 st.vrMs }
  checkPollBit st header

/-- `handle_data_pdu` -/
def handleDataPdu (st : RlcAm) (now : Nat) (payload : Bytes) (header : AmdPduHeader) : RlcAm :=
  if !insideRxWindow st header.sn then pollDiscarded st header
  else if (st.rxWindow header.sn).isSome then pollDiscarded st header
  else updateReordering (reassembleRxSdus (storeDataPdu st payload header)) now

/-- The ordered insert of `add_segment_and_check`. -/
def insertSegment (segment : AmdRxPdu) : List AmdRxPdu → List AmdRxPdu
  | [] => [segment]
  | s :: segments =>
    if s.header.so < segment.header.so then s :: insertSegment segment segments
    else segment :: s :: segments

/-- The check for completeness in `add_segment_and_check`: each segment starts where the
one before ends, the first at `so`, and the last one carries the last segment flag. -/
def segmentsComplete : Nat → List AmdRxPdu → Bool
  | _, [] => false
  | so, [s] => decide (so = s.header.so) && s.header.lsf
  | so, s :: segments =>
    decide (so = s.header.so) && segmentsComplete (so + s.buf.length) segments

/-- The loop of `add_segment_and_check` that rebuilds the length indicators, in `uint16_t`
arithmetic. -/
def rebuildLis : Nat → List AmdRxPdu → List Nat
  | _, [] => []
  | carryover, s :: segments =>
    let lis := match s.header.li with
      | [] => []
      | li :: lis => add16 li carryover :: lis
    let carryover := sub16 s.buf.length s.header.li.sum
    -- What is behind the length indicators is complete, and needs one of its own.
    if endAligned s.header.fi && !segments.isEmpty then
      lis ++ carryover :: rebuildLis 0 segments
    else lis ++ rebuildLis carryover segments

/-- The header that `add_segment_and_check` builds from the segments of a complete PDU. -/
def rebuildHeader (segments : List AmdRxPdu) : AmdPduHeader :=
  let front := (segments.head?.map (·.header)).getD {}
  let back := (segments.getLast?.map (·.header)).getD {}
  { dc := .dataPdu
    fi := fiStartAndEndAligned ||| (front.fi &&& fiNotStartAligned)
      ||| (back.fi &&& fiNotEndAligned)
    sn := front.sn
    li := rebuildLis 0 segments }

/-- `add_segment_and_check`: the new list of segments and, when the PDU is complete, the
payload and header of the call of `handle_data_pdu`. -/
def addSegmentAndCheck (segments : List AmdRxPdu) (segment : AmdRxPdu) :
    List AmdRxPdu × Option (Bytes × AmdPduHeader) :=
  let segments := insertSegment segment segments
  if segmentsComplete 0 segments then
    (segments, some (segments.flatMap (·.buf), rebuildHeader segments))
  else (segments, none)

/-- The part of `handle_data_pdu_segment` that stores the segment: the new state, and the
call of `handle_data_pdu` that `add_segment_and_check` makes. -/
def storeSegment (st : RlcAm) (payload : Bytes) (header : AmdPduHeader) :
    RlcAm × Option (Bytes × AmdPduHeader) :=
  if !insideRxWindow st header.sn then (pollDiscarded st header, none)
  else
    let segment : AmdRxPdu := { header := header, buf := payload }
    match st.rxSegments header.sn with
    | some segments =>
      let st := pollDiscarded st header
      let (segments, call) := addSegmentAndCheck segments segment
      ({ st with rxSegments := st.rxSegments.insert header.sn segments }, call)
    | none =>
      -- A first segment is never checked for completeness.
      let st := { st with rxSegments := st.rxSegments.insert header.sn [segment] }
      let st := updateVrH st header.sn
      (checkPollBit st header, none)

/-- `handle_data_pdu_segment` -/
def handleDataPduSegment (st : RlcAm) (now : Nat) (payload : Bytes) (header : AmdPduHeader) :
    RlcAm :=
  match storeSegment st payload header with
  | (st, none) => st
  | (st, some (payload, full)) =>
    let st := handleDataPdu st now payload full
    -- The segments go, also if the PDU was discarded.
    { st with rxSegments := st.rxSegments.erase header.sn }

/-! ### Received status PDUs -/

/-- The entry that `handle_control_pdu` puts in `retx_queue` for a NACK of the PDU `tx`. -/
def retxOfNack (i : Nat) (tx : AmdTxPdu) (nack : StatusNack) : AmdRetx :=
  if nack.hasSo then
    { sn := i, isSegment := true, soStart := nack.soStart
      soEnd := if nack.soEnd = 0x7FFF then tx.buf.length else nack.soEnd + 1 }
  else { sn := i, isSegment := false, soStart := 0, soEnd := tx.buf.length }

/-- One NACK of the inner loop of `handle_control_pdu` at sequence number `i`. -/
def queueNack (i : Nat) (st : RlcAm) (nack : StatusNack) : RlcAm :=
  if nack.nackSn = i then
    match st.txWindow i with
    | some tx =>
      if retxQueueHasSn st i then st
      else { st with retxQueue := st.retxQueue ++ [retxOfNack i tx nack] }
    | none => st
  else st

/-- An ACK of `handle_control_pdu` at sequence number `i`. The PDU leaves `tx_window` as
long as no lower sequence number was NACKed. -/
def ackPdu (i : Nat) (updateVtA : Bool) (st : RlcAm) : RlcAm :=
  match st.txWindow i with
  | some tx =>
    if updateVtA then
      { st with
        txWindow := st.txWindow.erase i
        vtA := (st.vtA + 1) % 1024
        vtMs := (st.vtMs + 1) % 1024 }
    -- `vt_a` stays at the first PDU that was NACKed.
    else { st with txWindow := st.txWindow.insert i { tx with isAcked := true } }
  | none => st

/-- The loop of `handle_control_pdu`. -/
def handleAcks (status : StatusPdu) : Nat → Nat → Bool → RlcAm → RlcAm
  | 0, _, _, st => st
  | rounds + 1, i, updateVtA, st =>
    if st.txModBase i < st.txModBase status.ackSn ∧ st.txModBase i < st.txModBase st.vtS then
      let nack := status.nacks.any fun n => n.nackSn == i
      let updateVtA := updateVtA && !nack
      let st := if nack then status.nacks.foldl (queueNack i) st else ackPdu i updateVtA st
      handleAcks status rounds ((i + 1) % 1024) updateVtA st
    else st

/-- `handle_control_pdu` after the status PDU is read. -/
def handleStatus (st : RlcAm) (status : StatusPdu) : RlcAm :=
  let st := { st with pollRetxTimeout := st.pollRetxTimeout.reset }
  handleAcks status 1024 st.vtA true st

section
variable (L : SrslteBit)

/-- `handle_control_pdu` -/
def handleControlPdu (st : RlcAm) (payload : Bytes) : Option RlcAm :=
  (readStatusPdu L payload).map (handleStatus st)

/-! ### MAC interface -/

/-- The bytes needed for the SDUs in `get_buffer_state`, on top of `nBytes` that are
already counted. -/
def sduBufferState (st : RlcAm) (nBytes : Nat) : Nat :=
  let nSdus := st.txSduQueue.length + (if st.txSdu.isSome then 1 else 0)
  let nBytes := nBytes + (st.txSduQueue.map List.length).sum + (st.txSdu.map List.length).getD 0
  let nBytes := if 1 < nSdus then nBytes + (3 * (nSdus - 1) + 1) / 2 else nBytes
  if 0 < nBytes then nBytes + 2 else nBytes

/-- The bytes needed for the retransmission at the front of `retx_queue`, when its PDU is
in `tx_window`. -/
def retxBufferState (st : RlcAm) : Option Nat :=
  match st.retxQueue with
  | [] => none
  | retx :: _ => (st.txWindow retx.sn).map fun tx => requiredBufferSize tx retx

/-- `get_total_buffer_state` -/
def getTotalBufferState (st : RlcAm) (now : Nat) : RlcAm × Nat :=
  let st := checkReorderingTimeout st now
  let (st, nBytes) :=
    if st.doStatus && !statusProhibited st now then
      (prepareStatus st, statusPackedLength (prepareStatus st).status)
    else (st, 0)
  (st, sduBufferState st (nBytes + (retxBufferState st).getD 0))

/-- `get_buffer_state` -/
def getBufferState (st : RlcAm) (now : Nat) : RlcAm × Nat :=
  let st := checkReorderingTimeout st now
  if st.doStatus && !statusProhibited st now then
    (prepareStatus st, statusPackedLength (prepareStatus st).status)
  else
    match retxBufferState st with
    -- The SDUs are not counted before the retransmission is sent.
    | some nBytes => (st, nBytes)
    | none => (st, sduBufferState st 0)

/-- `read_pdu`: the new state and the bytes written to `payload`. The source returns their
number. -/
def readPdu (st : RlcAm) (now nofBytes : Nat) : Option (RlcAm × Bytes) :=
  if st.doStatus && !statusProhibited st now then some (buildStatusPdu L st now nofBytes)
  else if 0 < st.retxQueue.length then buildRetxPdu st now nofBytes
  else
    let (st, pdu) := buildDataPdu st now nofBytes
    some (st, pduBytes pdu)

/-- `write_pdu` -/
def writePdu (st : RlcAm) (now : Nat) (payload : Bytes) : Option RlcAm :=
  match payload with
  | [] => some st
  | b0 :: _ =>
    if isControlPdu b0 then handleControlPdu L st payload
    else do
      let (header, data) ← readDataPduHeader payload
      if header.rf then some (handleDataPduSegment st now data header)
      else some (handleDataPdu st now data header)

/-- The calls a peer, PDCP and MAC make on an entity. -/
inductive AmCall where
  | writeSdu (sdu : Bytes)
  | readPdu (now nofBytes : Nat)
  | writePdu (now : Nat) (payload : Bytes)
  | getBufferState (now : Nat)
  | getTotalBufferState (now : Nat)
  | reset
deriving DecidableEq, Repr

/-- The state after a call that returns. -/
def amStep (st : RlcAm) : AmCall → Option RlcAm
  | .writeSdu sdu => writeSdu st sdu
  | .readPdu now nofBytes => (readPdu L st now nofBytes).map (·.1)
  | .writePdu now payload => writePdu L st now payload
  | .getBufferState now => some (getBufferState st now).1
  | .getTotalBufferState now => some (getTotalBufferState st now).1
  | .reset => some (reset st)

end

end SrsUE.Rlc
