import SrsUE.Rlc.Am
import SrsUE.Rlc.UmRx

/-!
# `SrsUE.Rlc.PduMemory`: the header readers on memory

The readers of `SrsUE.Rlc.AmPdu` and `SrsUE.Rlc.UmRx` stop where the source would read past a PDU.
The source itself goes on: it follows a pointer through memory as long as the extension bits say
so, and does not look at the length. Here the memory from the first byte of the PDU on is a
function, and a loop is followed for any number of rounds. The offsets that are read and the length
indicators or NACKs that are stored are part of the state.
-/

set_option autoImplicit false

namespace SrsUE.Rlc

/-! ### Length indicators -/

/-- The variables of `rlc_am_read_data_pdu_header` and `rlc_um_read_data_pdu_header` at the head of
`while(ext)`. `ptr` is relative to the first byte. -/
structure LiLoop where
  ptr : Nat
  ext : Nat
  li : List Nat := []
  reads : List Nat

/-- One round of the loop. An odd number of indicators leaves `ptr` at a byte that is half read. -/
def LiLoop.round (mem : Nat → UInt8) (s : LiLoop) : LiLoop :=
  let b0 := (mem s.ptr).toNat
  let b1 := (mem (s.ptr + 1)).toNat
  if s.li.length % 2 = 0 then
    { ptr := s.ptr + 1
      ext := (b0 >>> 7) &&& 0x01
      li := s.li ++ [(b0 &&& 0x7F) <<< 4 ||| (b1 &&& 0xF0) >>> 4]
      reads := s.reads ++ [s.ptr, s.ptr + 1] }
  else
    { ptr := s.ptr + 2
      ext := (b0 >>> 3) &&& 0x01
      li := s.li ++ [(b0 &&& 0x07) <<< 8 ||| (b1 &&& 0xFF)]
      reads := s.reads ++ [s.ptr, s.ptr + 1] }

/-- The loop after `rounds` rounds, or at its end. -/
def LiLoop.run (mem : Nat → UInt8) : Nat → LiLoop → LiLoop
  | 0, s => s
  | rounds + 1, s => if s.ext = 0 then s else LiLoop.run mem rounds (s.round mem)

/-- The length of the header, with the padding of an odd number of indicators. -/
def LiLoop.headerLength (s : LiLoop) : Nat := s.ptr + s.li.length % 2

/-- `rlc_am_read_data_pdu_header` in front of the extension part. On a control PDU it reads nothing
more. -/
def amReadFixedPart (mem : Nat → UInt8) : LiLoop :=
  let b0 := (mem 0).toNat
  if (b0 >>> 7) &&& 0x01 = 0 then { ptr := 0, ext := 0, reads := [0] }
  else if (b0 >>> 6) &&& 0x01 = 0 then
    { ptr := 2, ext := (b0 >>> 2) &&& 0x01, reads := [0, 1] }
  else { ptr := 4, ext := (b0 >>> 2) &&& 0x01, reads := [0, 1, 2, 3] }

/-- `rlc_um_read_data_pdu_header` in front of the extension part. -/
def umReadFixedPart (mem : Nat → UInt8) : UmdSnSize → LiLoop
  | .size5Bits => { ptr := 1, ext := ((mem 0).toNat >>> 5) &&& 0x01, reads := [0] }
  | .size10Bits => { ptr := 2, ext := ((mem 0).toNat >>> 2) &&& 0x01, reads := [0, 1] }

/-! ### Status PDUs -/

section
variable (L : SrslteBit)

/-- `srslte_bit_pack(&ptr, n)` with `ptr` at the bit `cur` of the unpacked PDU. -/
def fieldAt (bits : Nat → Bool) (cur n : Nat) : Nat :=
  L.pack ((List.range n).map fun i => bits (cur + i))

/-- The variables of `rlc_am_read_status_pdu` at the head of `while(ext1)`. All bits in front of
`cur` have been read. -/
structure NackLoop where
  cur : Nat
  ext1 : Nat
  nacks : List StatusNack := []

/-- One round of the loop. -/
def NackLoop.round (bits : Nat → Bool) (s : NackLoop) : NackLoop :=
  let nackSn := fieldAt L bits s.cur 10
  let ext1 := fieldAt L bits (s.cur + 10) 1
  if fieldAt L bits (s.cur + 11) 1 = 0 then
    { cur := s.cur + 12, ext1 := ext1, nacks := s.nacks ++ [{ nackSn := nackSn }] }
  else
    { cur := s.cur + 42, ext1 := ext1
      nacks := s.nacks ++ [{ nackSn := nackSn, hasSo := true
                             soStart := fieldAt L bits (s.cur + 12) 15
                             soEnd := fieldAt L bits (s.cur + 27) 15 }] }

/-- The loop after `rounds` rounds, or at its end. -/
def NackLoop.run (bits : Nat → Bool) : Nat → NackLoop → NackLoop
  | 0, s => s
  | rounds + 1, s => if s.ext1 = 0 then s else NackLoop.run bits rounds (s.round L bits)

/-- `rlc_am_read_status_pdu` in front of the loop. -/
def readStatusFixedPart (bits : Nat → Bool) : NackLoop :=
  if fieldAt L bits 0 1 ≠ DcField.controlPdu.toNat then { cur := 1, ext1 := 0 }
  else if fieldAt L bits 1 3 ≠ 0 then { cur := 4, ext1 := 0 }
  else { cur := 15, ext1 := fieldAt L bits 14 1 }

end

/-! ### What `reassemble_rx_sdus` copies from -/

/-- The PDUs that the loop of `reassemble_rx_sdus` copies from. -/
def reassembledPdus : Nat → RlcAm → List AmdRxPdu
  | 0, _ => []
  | rounds + 1, st =>
    match st.rxWindow st.vrR with
    | some pdu => pdu :: reassembledPdus rounds (reassemblePdu st pdu)
    | none => []

/-- The PDUs that `handle_data_pdu` has `reassemble_rx_sdus` copy from. -/
def copiedByDataPdu (st : RlcAm) (payload : Bytes) (header : AmdPduHeader) : List AmdRxPdu :=
  if !insideRxWindow st header.sn then []
  else if (st.rxWindow header.sn).isSome then []
  else
    let st := storeDataPdu st payload header
    reassembledPdus 1024 { st with rxSdu := some (st.rxSdu.getD []) }

/-- The same for `handle_data_pdu_segment`. -/
def copiedBySegment (st : RlcAm) (payload : Bytes) (header : AmdPduHeader) : List AmdRxPdu :=
  match storeSegment st payload header with
  | (_, none) => []
  | (st, some (payload, full)) => copiedByDataPdu st payload full

/-- The same for `write_pdu`. -/
def copiedByWritePdu (st : RlcAm) (payload : Bytes) : List AmdRxPdu :=
  match readDataPduHeader payload with
  | none => []
  | some (header, data) =>
    if header.dc = .controlPdu then []
    else if header.rf then copiedBySegment st data header
    else copiedByDataPdu st data header

namespace Um

/-- The PDUs that the first loop of `reassemble_rx_sdus` copies from. -/
def caughtUpPdus : Nat → RlcUmRx → List UmdPdu
  | 0, _ => []
  | rounds + 1, st =>
    if st.insideReorderingWindow st.vrUr then []
    else (st.rxWindow st.vrUr).toList ++ caughtUpPdus rounds (catchUpRound st)

/-- The PDUs that the second loop of `reassemble_rx_sdus` copies from. -/
def updatedPdus : Nat → RlcUmRx → List UmdPdu
  | 0, _ => []
  | rounds + 1, st =>
    match st.rxWindow st.vrUr with
    | none => []
    | some pdu => pdu :: updatedPdus rounds (reassemblePdu st pdu).advance

/-- The PDUs that `reassemble_rx_sdus` copies from. -/
def copiedPdus (st : RlcUmRx) : List UmdPdu :=
  caughtUpPdus st.rxMod st ++ updatedPdus st.rxMod (catchUp st.rxMod st)

/-- The same for `handle_data_pdu` behind the header. -/
def copiedByPdu (st : RlcUmRx) (header : UmdPduHeader) (buf : Bytes) : List UmdPdu :=
  if st.rxModBase (sub32 st.vrUh st.rxWindowSize) ≤ st.rxModBase header.sn
      ∧ st.rxModBase header.sn < st.rxModBase st.vrUr then []
  else if (st.rxWindow header.sn).isSome then []
  else copiedPdus (storeDataPdu st header buf)

/-- The same for the loop of `timer_expired`. -/
def copiedBySkipping : Nat → RlcUmRx → List UmdPdu
  | 0, _ => []
  | rounds + 1, st =>
    if st.rxModBase st.vrUr < st.rxModBase st.vrUx then
      copiedPdus st.advance ++ copiedBySkipping rounds (reassembleRxSdus st.advance)
    else []

/-- The same for `timer_expired`. -/
def copiedByTimer (st : RlcUmRx) : List UmdPdu :=
  copiedBySkipping st.rxMod { st with pduLost := true, rxSdu := [] }

/-- The same for `write_pdu`. -/
def copiedByWritePdu (st : RlcUmRx) (payload : Bytes) : List UmdPdu :=
  match readDataPduHeader st.rxSnFieldLength payload with
  | none => []
  | some (header, buf) => copiedByPdu st header buf

/-- The same for a `step` of the reordering timer. -/
def copiedByTimerStep (st : RlcUmRx) : List UmdPdu :=
  let (timer, expired) := st.reorderingTimer.step
  if expired then copiedByTimer { st with reorderingTimer := timer } else []

end Um

end SrsUE.Rlc
