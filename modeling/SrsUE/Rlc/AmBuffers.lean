import SrsUE.Common.BufferPool
import SrsUE.Rlc.Am

/-!
# `SrsUE.Rlc.AmBuffers`: the pool buffers of the acknowledged mode entity

The contents of the buffers are the subject of `SrsUE.Rlc.Am`. This module follows the buffers
themselves: which ones `rlc_am.cc` takes from `buffer_pool`, which it gives back or hands to PDCP,
and where it keeps the others. A method of `SrsUE.Rlc.Am` has its counterpart here, under the same
name, with the same branches. They are decided on the state before the call.

Buffers are numbered in the order in which the entity gets them, from `allocate` or with an SDU
from PDCP. The layers above give back what they are handed, and nobody else holds buffers of the
pool, so all the buffers that it is short of are with the entity.
-/

set_option autoImplicit false

namespace SrsUE.Rlc

open SrsUE.Lib
open SrsUE.Common (poolSize)

/-- The buffers that an `rlc_am` object holds, and those it has given away. -/
structure AmBuffers where
  /-- The number of buffers obtained so far. -/
  obtained : Nat := 0
  deallocated : List Nat := []
  pdcp : List Nat := []
  txSdu : Option Nat := none
  rxSdu : Option Nat := none
  txSduQueue : List Nat := []
  txWindow : Dict Nat Nat := Dict.empty
  rxWindow : Dict Nat Nat := Dict.empty
  rxSegments : Dict Nat (List Nat) := Dict.empty
  /-- `allocate` has returned `NULL`, and its caller has written through it. Nothing is defined from
  then on. -/
  exhausted : Bool := false

namespace AmBuffers

variable (b : AmBuffers)

/-- There are `n` more buffers in the pool. -/
def HasRoom (n : Nat) : Prop :=
  b.obtained + n ≤ poolSize + b.deallocated.length + b.pdcp.length

instance (n : Nat) : Decidable (b.HasRoom n) := inferInstanceAs (Decidable (_ ≤ _))

/-- `pool->allocate()`. The new buffer has the number `b.obtained`. No caller looks whether it got
one. -/
def allocate : AmBuffers :=
  { b with obtained := b.obtained + 1, exhausted := b.exhausted || !decide (b.HasRoom 1) }

/-- `pool->deallocate` of some buffers. -/
def deallocate (bufs : List Nat) : AmBuffers := { b with deallocated := bufs ++ b.deallocated }

/-- The buffers that the containers and the two SDU pointers refer to. Sequence numbers have ten
bits. -/
def held : List Nat :=
  b.txSdu.toList ++ b.rxSdu.toList ++ b.txSduQueue ++ b.txWindow.values 1024
    ++ b.rxWindow.values 1024 ++ (b.rxSegments.values 1024).flatten

/-- `write_sdu` of a buffer from PDCP. -/
def writeSdu : AmBuffers := { b.allocate with txSduQueue := b.txSduQueue ++ [b.obtained] }

/-- `reset`. The two SDU buffers are kept. -/
def reset : AmBuffers :=
  { b.deallocate (b.txSduQueue ++ (b.rxSegments.values 1024).flatten ++ b.rxWindow.values 1024
      ++ b.txWindow.values 1024) with
    txSduQueue := [], rxSegments := Dict.empty, rxWindow := Dict.empty, txWindow := Dict.empty }

/-! ### `build_data_pdu` -/

/-- `tx_sdu_queue.read(&tx_sdu)` -/
def readQueue : AmBuffers :=
  { b with txSdu := b.txSduQueue.head?, txSduQueue := b.txSduQueue.tail }

/-- The buffer of `tx_sdu` goes back when `rest`, what is left of the SDU, is empty. -/
def finishSdu (rest : Option Bytes) : AmBuffers :=
  if rest.isNone then { b.deallocate b.txSdu.toList with txSdu := none } else b

/-- The loop that pulls SDUs from the queue. -/
def pullSdus : List Bytes → PduBuild → AmBuffers → AmBuffers
  | [], _, b => b
  | sdu :: queue, p, b =>
    if p.headLen < p.pduSpace then
      let li := if 0 < p.lastLi then p.li ++ [p.lastLi] else p.li
      let headLen := amPackedLength { li := li }
      if p.pduSpace ≤ headLen then b
      else
        let p := { p with li := li, headLen := headLen }.addSdu sdu
        pullSdus queue p (b.readQueue.finishSdu p.txSdu)
    else b

/-- The buffers of the SDUs that the new PDU is filled from. -/
def fillPdu (txSdu : Option Bytes) (queue : List Bytes) (nofBytes : Nat) : AmBuffers :=
  let p : PduBuild :=
    { headLen := amPackedLength {}, pduSpace := nofBytes, txSdu := txSdu, queue := queue }
  match txSdu with
  | some sdu => pullSdus queue (p.addSdu sdu) (b.finishSdu (p.addSdu sdu).txSdu)
  | none => pullSdus queue p b

/-- `build_data_pdu` -/
def buildDataPdu (st : RlcAm) (nofBytes : Nat) : AmBuffers :=
  if st.txSdu.isNone ∧ st.txSduQueue.length = 0 then b
  else
    let pdu := b.obtained
    let b := b.allocate
    -- "Cannot build a PDU": the source returns without a `deallocate`.
    if nofBytes ≤ amPackedLength {} then b
    else
      let b := b.fillPdu st.txSdu st.txSduQueue nofBytes
      { b with txWindow := b.txWindow.insert st.vtS pdu }

/-- `read_pdu`. Status PDUs and retransmissions take no buffer. -/
def readPdu (st : RlcAm) (now nofBytes : Nat) : AmBuffers :=
  if st.doStatus && !statusProhibited st now then b
  else if 0 < st.retxQueue.length then b
  else b.buildDataPdu st nofBytes

/-! ### `reassemble_rx_sdus` -/

/-- `pdcp->write_pdu(lcid, rx_sdu)`, and a new buffer for `rx_sdu`. -/
def deliver : AmBuffers :=
  let b := { b with pdcp := b.rxSdu.toList ++ b.pdcp, rxSdu := none }
  { b.allocate with rxSdu := some b.obtained }

/-- One round of the loop, for the PDU at `vr_r`. -/
def reassemblePdu (st : RlcAm) (pdu : AmdRxPdu) : AmBuffers :=
  let b := deliver^[pdu.header.li.length] b
  let b := if endAligned pdu.header.fi then b.deliver else b
  { b.deallocate (b.rxWindow st.vrR).toList with rxWindow := b.rxWindow.erase st.vrR }

/-- The loop of `reassemble_rx_sdus`. -/
def reassembleLoop : Nat → RlcAm → AmBuffers → AmBuffers
  | 0, _, b => b
  | rounds + 1, st, b =>
    match st.rxWindow st.vrR with
    | some pdu => reassembleLoop rounds (SrsUE.Rlc.reassemblePdu st pdu) (b.reassemblePdu st pdu)
    | none => b

/-- `reassemble_rx_sdus` -/
def reassembleRxSdus (st : RlcAm) : AmBuffers :=
  let b := if b.rxSdu.isNone then { b.allocate with rxSdu := some b.obtained } else b
  reassembleLoop 1024 { st with rxSdu := some (st.rxSdu.getD []) } b

/-! ### Received PDUs -/

/-- `handle_data_pdu` -/
def handleDataPdu (st : RlcAm) (payload : Bytes) (header : AmdPduHeader) : AmBuffers :=
  if !insideRxWindow st header.sn then b
  else if (st.rxWindow header.sn).isSome then b
  else
    let b := { b.allocate with rxWindow := b.rxWindow.insert header.sn b.obtained }
    b.reassembleRxSdus (storeDataPdu st payload header)

/-- The ordered insert of `add_segment_and_check`. -/
def insertSegment (segment : AmdRxPdu) (buf : Nat) : List AmdRxPdu → List Nat → List Nat
  | s :: segments, c :: bufs =>
    if s.header.so < segment.header.so then c :: insertSegment segment buf segments bufs
    else buf :: c :: bufs
  | _, bufs => buf :: bufs

/-- `handle_data_pdu_segment` -/
def handleDataPduSegment (st : RlcAm) (payload : Bytes) (header : AmdPduHeader) : AmBuffers :=
  if !insideRxWindow st header.sn then b
  else
    let buf := b.obtained
    let b := b.allocate
    match st.rxSegments header.sn with
    | some segments =>
      let bufs := insertSegment { header := header, buf := payload } buf segments
        ((b.rxSegments header.sn).getD [])
      let b := { b with rxSegments := b.rxSegments.insert header.sn bufs }
      match storeSegment st payload header with
      | (_, none) => b
      | (st, some (payload, full)) =>
        -- `full_pdu` is allocated for the call of `handle_data_pdu`, and then left alone.
        let b := b.allocate.handleDataPdu st payload full
        { b.deallocate ((b.rxSegments header.sn).getD []) with
          rxSegments := b.rxSegments.erase header.sn }
    | none => { b with rxSegments := b.rxSegments.insert header.sn [buf] }

/-- An ACK of `handle_control_pdu` at sequence number `i`. -/
def ackPdu (st : RlcAm) (i : Nat) (updateVtA : Bool) : AmBuffers :=
  if (st.txWindow i).isSome && updateVtA then
    { b.deallocate (b.txWindow i).toList with txWindow := b.txWindow.erase i }
  else b

/-- The loop of `handle_control_pdu`. -/
def handleAcks (status : StatusPdu) : Nat → Nat → Bool → RlcAm → AmBuffers → AmBuffers
  | 0, _, _, _, b => b
  | rounds + 1, i, updateVtA, st, b =>
    if st.txModBase i < st.txModBase status.ackSn ∧ st.txModBase i < st.txModBase st.vtS then
      let nack := status.nacks.any fun n => n.nackSn == i
      let updateVtA := updateVtA && !nack
      let st' := if nack then status.nacks.foldl (queueNack i) st
        else SrsUE.Rlc.ackPdu i updateVtA st
      let b' := if nack then b else b.ackPdu st i updateVtA
      handleAcks status rounds ((i + 1) % 1024) updateVtA st' b'
    else b

/-- `handle_control_pdu` after the status PDU is read. -/
def handleStatus (st : RlcAm) (status : StatusPdu) : AmBuffers :=
  handleAcks status 1024 st.vtA true { st with pollRetxTimeout := st.pollRetxTimeout.reset } b

/-- `write_pdu` -/
def writePdu (L : SrslteBit) (st : RlcAm) (payload : Bytes) : AmBuffers :=
  match payload with
  | [] => b
  | b0 :: _ =>
    if isControlPdu b0 then
      match readStatusPdu L payload with
      | some status => b.handleStatus st status
      | none => b
    else
      match readDataPduHeader payload with
      | some (header, data) =>
        if header.rf then b.handleDataPduSegment st data header
        else b.handleDataPdu st data header
      | none => b

end AmBuffers

/-- The buffers after a call on the entity `st` that returns. -/
def amBuffersStep (L : SrslteBit) (st : RlcAm) (b : AmBuffers) : AmCall → AmBuffers
  | .writeSdu _ => b.writeSdu
  | .readPdu now nofBytes => b.readPdu st now nofBytes
  | .writePdu _ payload => b.writePdu L st payload
  | .getBufferState _ => b
  | .getTotalBufferState _ => b
  | .reset => b.reset

/-- An entity with its buffers, after a call that returns. -/
def amPoolStep (L : SrslteBit) (s : RlcAm × AmBuffers) (c : AmCall) : Option (RlcAm × AmBuffers) :=
  (amStep L s.1 c).map fun st => (st, amBuffersStep L s.1 s.2 c)

end SrsUE.Rlc
