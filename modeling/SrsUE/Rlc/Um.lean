import SrsUE.Rlc.AmPdu

/-!
# `SrsUE.Rlc.Um`: the transmit side of the unacknowledged mode entity

`RlcUm` holds the transmit variables of an `rlc_um` object, and the functions below are its
methods of the transmit side, in the order of `rlc_um.cc`. The header functions at the end of
that file come first.

`build_data_pdu` keeps `head_len` and `pdu_space` as `int` and compares them with `uint32_t`
values. Both conversions are part of the model: `toU32` and `toI32` wrap as the target type
does.
-/

set_option autoImplicit false

namespace SrsUE.Rlc

/-- The conversion of an `int` to `uint32_t`. -/
def toU32 (x : Int) : Nat := (x % 2 ^ 32).toNat

/-- The conversion of an integer to `int`. -/
def toI32 (x : Int) : Int := x.bmod (2 ^ 32)

namespace Um

/-! ### UMD PDU header -/

/-- The fixed part of the header, in bytes. -/
def fixedLength : UmdSnSize → Nat
  | .size5Bits => 1
  | .size10Bits => 2

/-- `rlc_um_packed_length` -/
def packedLength (header : UmdPduHeader) : Nat :=
  fixedLength header.snSize + (3 * header.li.length + 1) / 2

/-- `rlc_um_write_data_pdu_header`: the bytes that are put in front of the data. The extension
part is written as in acknowledged mode. -/
def writeDataPduHeader (header : UmdPduHeader) : Bytes :=
  let ext := if header.li.isEmpty then 0 else 1
  (match header.snSize with
    | .size5Bits =>
      [.ofNat ((header.fi.toNat &&& 0x03) <<< 6 ||| (ext &&& 0x01) <<< 5
        ||| (header.sn &&& 0x1F))]
    | .size10Bits =>
      [.ofNat ((header.fi.toNat &&& 0x03) <<< 3 ||| (ext &&& 0x01) <<< 2
          ||| (header.sn &&& 0x300) >>> 8),
        .ofNat (header.sn &&& 0xFF)])
  ++ writeLis header.li

/-! ### The entity -/

/-- The transmit variables of an `rlc_um` object. The sequence number size and the modulus
that goes with it are set by `configure`. -/
structure RlcUm where
  txSduQueue : List Bytes := []
  txSdu : Option Bytes := none
  txSnFieldLength : UmdSnSize
  txMod : Nat
  vtUs : Nat := 0
deriving DecidableEq, Repr

/-- A newly constructed entity after `configure`, for a bearer that transmits. -/
def configure (txSnFieldLength : UmdSnSize) : RlcUm :=
  { txSnFieldLength := txSnFieldLength
    txMod := match txSnFieldLength with
      | .size5Bits => 32
      | .size10Bits => 1024 }

/-- `configure` of the members that a bearer needs to transmit. -/
def RlcUm.reconfigure (st : RlcUm) (txSnFieldLength : UmdSnSize) : RlcUm :=
  { st with
    txSnFieldLength := txSnFieldLength
    txMod := (configure txSnFieldLength).txMod }

/-- `reset` of the transmit variables. The buffer of `tx_sdu` is emptied and kept. -/
def RlcUm.reset (st : RlcUm) : RlcUm :=
  { st with vtUs := 0, txSdu := st.txSdu.map fun _ => [], txSduQueue := [] }

/-- `write_sdu` -/
def writeSdu (st : RlcUm) (sdu : Bytes) : Option RlcUm :=
  if st.txSduQueue.length < txSduQueueCapacity then
    some { st with txSduQueue := st.txSduQueue ++ [sdu] }
  else none

/-- `get_buffer_state`, and `get_total_buffer_state`, which calls it. -/
def getBufferState (st : RlcUm) : Nat :=
  let nSdus := st.txSduQueue.length + (if st.txSdu.isSome then 1 else 0)
  let nBytes := (st.txSduQueue.map List.length).sum + (st.txSdu.map List.length).getD 0
  let nBytes := if 1 < nSdus then nBytes + (3 * (nSdus - 1) + 1) / 2 else nBytes
  if 0 < nBytes then nBytes + 2 else nBytes

/-! ### Building data PDUs -/

/-- The local variables of `build_data_pdu` while it fills the PDU. `copies` records each
`memcpy` of SDU bytes: the difference `pdu_space-head_len` in front of it, and its length. -/
structure PduBuild where
  li : List Nat := []
  headLen : Int
  lastLi : Nat := 0
  pduSpace : Int
  pdu : Bytes := []
  txSdu : Option Bytes
  queue : List Bytes
  copies : List (Int × Nat) := []
deriving DecidableEq, Repr

/-- Move bytes of `sdu` into the PDU. The space is compared as a `uint32_t`. -/
def PduBuild.addSdu (b : PduBuild) (sdu : Bytes) : PduBuild :=
  let room := b.pduSpace - b.headLen
  let toMove := if sdu.length ≤ toU32 room then sdu.length else toU32 room
  { b with
    lastLi := toMove
    pdu := b.pdu ++ sdu.take toMove
    txSdu := if sdu.length - toMove = 0 then none else some (sdu.drop toMove)
    pduSpace := toI32 (b.pduSpace - toMove)
    copies := b.copies ++ [(room, toMove)] }

/-- The loop of `build_data_pdu` that pulls SDUs from the queue. -/
def pullSdus (snSize : UmdSnSize) : List Bytes → PduBuild → PduBuild
  | [], b => { b with queue := [] }
  | sdu :: queue, b =>
    if b.headLen < b.pduSpace then
      let li := if 0 < b.lastLi then b.li ++ [b.lastLi] else b.li
      let headLen : Int := packedLength { snSize := snSize, li := li }
      -- Acknowledged mode looks here whether the longer header leaves room. This mode does not.
      pullSdus snSize queue ({ b with li := li, headLen := headLen }.addSdu sdu)
    else { b with queue := sdu :: queue }

/-- The PDU that `build_data_pdu` fills from `tx_sdu` and the queue. -/
def fillPdu (snSize : UmdSnSize) (txSdu : Option Bytes) (queue : List Bytes) (nofBytes : Nat) :
    PduBuild :=
  let b : PduBuild :=
    { headLen := packedLength { snSize := snSize }, pduSpace := toI32 nofBytes, txSdu := txSdu
      queue := queue }
  pullSdus snSize queue (match txSdu with
    | some sdu => b.addSdu sdu
    | none => b)

/-- `build_data_pdu`: the new state, and the PDU under construction with its header. -/
def buildDataPdu (st : RlcUm) (nofBytes : Nat) : RlcUm × Option (UmdPduHeader × PduBuild) :=
  if st.txSdu.isNone ∧ st.txSduQueue.length = 0 then (st, none)
  else if toI32 nofBytes ≤ packedLength { snSize := st.txSnFieldLength } then (st, none)
  else
    let b := fillPdu st.txSnFieldLength st.txSdu st.txSduQueue nofBytes
    let fi := if st.txSdu.isSome then fiStartAndEndAligned ||| fiNotStartAligned
      else fiStartAndEndAligned
    let fi := if b.txSdu.isSome then fi ||| fiNotEndAligned else fi
    ({ st with
        txSdu := b.txSdu
        txSduQueue := b.queue
        vtUs := (st.vtUs + 1) % st.txMod },
      some ({ fi := fi, snSize := st.txSnFieldLength, sn := st.vtUs, li := b.li }, b))

/-- The bytes of a PDU as they are copied to `payload`, none when there is no PDU. -/
def pduBytes : Option (UmdPduHeader × PduBuild) → Bytes
  | none => []
  | some (header, b) => writeDataPduHeader header ++ b.pdu

/-- `read_pdu`: the new state and the bytes written to `payload`. -/
def readPdu (st : RlcUm) (nofBytes : Nat) : RlcUm × Bytes :=
  let (st, pdu) := buildDataPdu st nofBytes
  (st, pduBytes pdu)

end Um

end SrsUE.Rlc
