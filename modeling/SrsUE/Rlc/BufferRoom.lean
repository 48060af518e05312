import SrsUE.Rlc.Am
import SrsUE.Rlc.UmRx

/-!
# `SrsUE.Rlc.BufferRoom`: how far the entities write

The entities put SDUs and PDUs together with `memcpy`, and do not look for the end of the buffer
that they copy to. In `SrsUE.Rlc.Am`, `SrsUE.Rlc.Um` and `SrsUE.Rlc.UmRx` a buffer takes any number
of bytes. Here the copies of each function to buffers of the pool are listed, in their order: for
each of them the number of bytes that its buffer then holds from `msg` on.

A copy stays in its buffer when that is at most `msgRoom`. A longer one overwrites the pointer
`msg`, which stands behind the array and which the next access goes through. What the code does
from then on is not defined.

A copy to `payload` is not listed. It goes to a buffer of MAC, which is as long as the grant.
-/

set_option autoImplicit false

namespace SrsUE.Rlc

/-- Every copy stays in its buffer. -/
def InRoom (copies : List Nat) : Prop := ∀ n ∈ copies, n ≤ msgRoom

instance (copies : List Nat) : Decidable (InRoom copies) :=
  inferInstanceAs (Decidable (∀ n ∈ copies, n ≤ msgRoom))

/-- Without copies nothing is overrun. -/
theorem inRoom_nil : InRoom [] := List.forall_mem_nil _

/-- Some copies and further ones stay in their buffers. -/
theorem inRoom_append (xs ys : List Nat) : InRoom (xs ++ ys) ↔ InRoom xs ∧ InRoom ys :=
  List.forall_mem_append

/-- A copy and further ones stay in their buffers. -/
theorem inRoom_cons (n : Nat) (copies : List Nat) :
    InRoom (n :: copies) ↔ n ≤ msgRoom ∧ InRoom copies :=
  List.forall_mem_cons

/-- The copies of one PDU to `rx_sdu` in both `reassemble_rx_sdus`, by the length indicators: the
PDU has `nBytes` left, and `rx_sdu` holds `held`. The SDU that a length indicator ends is handed
over or emptied. `N_bytes` of the PDU is unsigned. -/
def pieceCopies : List Nat → Nat → Nat → List Nat
  | [], nBytes, held => [held + nBytes]
  | len :: lis, nBytes, held => (held + len) :: pieceCopies lis (sub32 nBytes len) 0

/-! ### Acknowledged mode -/

/-- The copies of `build_data_pdu` to the new PDU. Each is put behind the one before, so the last
one reaches farthest, and it alone is listed. -/
def buildDataPduCopies (st : RlcAm) (now nofBytes : Nat) : List Nat :=
  ((buildDataPdu st now nofBytes).2.map fun pdu => pdu.2.length).toList

/-- The copies of `read_pdu`. A status PDU and a retransmission are written to `payload`. -/
def readPduCopies (st : RlcAm) (now nofBytes : Nat) : List Nat :=
  if st.doStatus && !statusProhibited st now then []
  else if 0 < st.retxQueue.length then []
  else buildDataPduCopies st now nofBytes

/-- The copies of the loop of `reassemble_rx_sdus`. -/
def reassembleCopies : Nat → RlcAm → List Nat
  | 0, _ => []
  | rounds + 1, st =>
    match st.rxWindow st.vrR with
    | some pdu =>
      pieceCopies pdu.header.li pdu.buf.length (st.rxSdu.getD []).length
        ++ reassembleCopies rounds (reassemblePdu st pdu)
    | none => []

/-- The copies of `handle_data_pdu`. -/
def handleDataPduCopies (st : RlcAm) (payload : Bytes) (header : AmdPduHeader) : List Nat :=
  if !insideRxWindow st header.sn then []
  else if (st.rxWindow header.sn).isSome then []
  else payload.length :: reassembleCopies 1024 (storeDataPdu st payload header)

/-- The copies of `handle_data_pdu_segment` in front of the call of `handle_data_pdu`: the segment,
and the segments of a complete PDU to `full_pdu`, of which the last one reaches farthest. -/
def storeSegmentCopies (st : RlcAm) (payload : Bytes) (header : AmdPduHeader) : List Nat :=
  if !insideRxWindow st header.sn then []
  else payload.length :: ((storeSegment st payload header).2.map fun call => call.1.length).toList

/-- The copies of `handle_data_pdu_segment`. -/
def handleDataPduSegmentCopies (st : RlcAm) (payload : Bytes) (header : AmdPduHeader) : List Nat :=
  storeSegmentCopies st payload header ++
    match storeSegment st payload header with
    | (_, none) => []
    | (st', some (payload, full)) => handleDataPduCopies st' payload full

/-- The copies of `write_pdu`. A status PDU is read where it is. -/
def writePduCopies (st : RlcAm) (payload : Bytes) : List Nat :=
  match payload with
  | [] => []
  | b0 :: _ =>
    if isControlPdu b0 then []
    else
      match readDataPduHeader payload with
      | none => []
      | some (header, data) =>
        if header.rf then handleDataPduSegmentCopies st data header
        else handleDataPduCopies st data header

/-! ### Unacknowledged mode -/

namespace Um

/-- The copies of `build_data_pdu` to the new PDU, of which the last one reaches farthest. -/
def buildDataPduCopies (st : RlcUm) (nofBytes : Nat) : List Nat :=
  ((buildDataPdu st nofBytes).2.map fun pdu => pdu.2.pdu.length).toList

/-- The copies of both loops of `reassemble_rx_sdus` from the PDU at `vr_ur`. -/
def roundCopies (st : RlcUmRx) : List Nat :=
  match st.rxWindow st.vrUr with
  | none => []
  | some pdu => pieceCopies pdu.header.li pdu.buf.length st.rxSdu.length

/-- The copies of the first loop of `reassemble_rx_sdus`. -/
def catchUpCopies : Nat → RlcUmRx → List Nat
  | 0, _ => []
  | rounds + 1, st =>
    if st.insideReorderingWindow st.vrUr then []
    else roundCopies st ++ catchUpCopies rounds (catchUpRound st)

/-- The copies of the second loop of `reassemble_rx_sdus`. -/
def updateVrUrCopies : Nat → RlcUmRx → List Nat
  | 0, _ => []
  | rounds + 1, st =>
    match st.rxWindow st.vrUr with
    | none => []
    | some pdu => roundCopies st ++ updateVrUrCopies rounds (reassemblePdu st pdu).advance

/-- The copies of `reassemble_rx_sdus`. -/
def reassembleRxSdusCopies (st : RlcUmRx) : List Nat :=
  catchUpCopies st.rxMod st ++ updateVrUrCopies st.rxMod (catchUp st.rxMod st)

/-- The copies of `handle_data_pdu` behind the header. The PDU is copied with its header, which is
stripped in the new buffer. -/
def receivePduCopies (st : RlcUmRx) (payload : Bytes) (header : UmdPduHeader) (buf : Bytes) :
    List Nat :=
  if st.rxModBase (sub32 st.vrUh st.rxWindowSize) ≤ st.rxModBase header.sn
      ∧ st.rxModBase header.sn < st.rxModBase st.vrUr then []
  else if (st.rxWindow header.sn).isSome then []
  else payload.length :: reassembleRxSdusCopies (storeDataPdu st header buf)

/-- The copies of `handle_data_pdu`. -/
def handleDataPduCopies (st : RlcUmRx) (payload : Bytes) : List Nat :=
  match readDataPduHeader st.rxSnFieldLength payload with
  | none => []
  | some (header, buf) => receivePduCopies st payload header buf

/-- The copies of the loop of `timer_expired`. -/
def skipMissingCopies : Nat → RlcUmRx → List Nat
  | 0, _ => []
  | rounds + 1, st =>
    if st.rxModBase st.vrUr < st.rxModBase st.vrUx then
      reassembleRxSdusCopies st.advance
        ++ skipMissingCopies rounds (reassembleRxSdus st.advance)
    else []

/-- The copies of `timer_expired`. -/
def timerExpiredCopies (st : RlcUmRx) : List Nat :=
  skipMissingCopies st.rxMod { st with pduLost := true, rxSdu := [] }

/-- The copies of an event on the receive side. -/
def rxStepCopies (st : RlcUmRx) : RxEvent → List Nat
  | .writePdu payload => handleDataPduCopies st payload
  | .timerExpired => timerExpiredCopies { st with reorderingTimer := st.reorderingTimer.expire }

end Um

end SrsUE.Rlc
