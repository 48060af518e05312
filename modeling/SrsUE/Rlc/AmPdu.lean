import SrsUE.Rlc.Common

/-!
# `SrsUE.Rlc.AmPdu`: packing and unpacking AMD and STATUS PDUs

The header functions at the end of `rlc_am.cc` (3GPP TS 36.322 v10.0.0 Section 6.2.1). The
data header is packed with shifts and masks on bytes. The status PDU goes through the bit
routines of the srslte library, which is not part of the repository: `SrslteBit` holds
these four routines with what the code relies on.

The readers of the source check no length. A reader here returns `none` where the source
reads past the bytes it was given, or stores past the end of the `li` or `nacks` array.
-/

set_option autoImplicit false

namespace SrsUE.Rlc

/-! ### AMD PDU header -/

/-- `rlc_am_packed_length` of a data header: two fixed bytes, two more for a segment, and
one and a half bytes for each length indicator, rounded up. -/
def amPackedLength (header : AmdPduHeader) : Nat :=
  2 + (if header.rf then 2 else 0) + (3 * header.li.length + 1) / 2

/-- The extension part `rlc_am_write_data_pdu_header` writes: two length indicators share
three bytes, and an odd last one is padded with a nibble. -/
def writeLis : List Nat → Bytes
  | [] => []
  | [li] =>
    [.ofNat ((0 &&& 0x01) <<< 7 ||| (li &&& 0x7F0) >>> 4), .ofNat ((li &&& 0x00F) <<< 4)]
  | li :: li' :: lis =>
    let ext := if lis.isEmpty then 0 else 1
    [.ofNat ((1 &&& 0x01) <<< 7 ||| (li &&& 0x7F0) >>> 4),
      .ofNat ((li &&& 0x00F) <<< 4 ||| (ext &&& 0x01) <<< 3 ||| (li' &&& 0x700) >>> 8),
      .ofNat (li' &&& 0x0FF)] ++ writeLis lis

/-- `rlc_am_write_data_pdu_header` -/
def writeDataPduHeader (header : AmdPduHeader) : Bytes :=
  let ext := if header.li.isEmpty then 0 else 1
  [.ofNat ((header.dc.toNat &&& 0x01) <<< 7 ||| (header.rf.toNat &&& 0x01) <<< 6
      ||| (header.p.toNat &&& 0x01) <<< 5 ||| (header.fi.toNat &&& 0x03) <<< 3
      ||| (ext &&& 0x01) <<< 2 ||| (header.sn &&& 0x300) >>> 8),
    .ofNat (header.sn &&& 0xFF)]
  ++ (if header.rf then
        [.ofNat ((header.lsf.toNat &&& 0x01) <<< 7 ||| (header.so &&& 0x7F00) >>> 8),
          .ofNat (header.so &&& 0x00FF)]
      else [])
  ++ writeLis header.li

/-- The `while(ext)` loop of `rlc_am_read_data_pdu_header`, two length indicators a round:
the indicators and the bytes behind the extension part. The nibble that pads an odd number
of indicators is skipped. -/
def readLis : Bytes → Option (List Nat × Bytes)
  | b0 :: b1 :: rest =>
    let li := (b0.toNat &&& 0x7F) <<< 4 ||| (b1.toNat &&& 0xF0) >>> 4
    if (b0.toNat >>> 7) &&& 0x01 = 0 then some ([li], rest)
    else
      match rest with
      | b2 :: rest' =>
        let li' := (b1.toNat &&& 0x07) <<< 8 ||| (b2.toNat &&& 0xFF)
        if (b1.toNat >>> 3) &&& 0x01 = 0 then some ([li, li'], rest')
        else (readLis rest').map fun r => (li :: li' :: r.1, r.2)
      | [] => none
  | _ => none

/-- The segment part of `rlc_am_read_data_pdu_header`. -/
def readSegmentPart (header : AmdPduHeader) : Bytes → Option (AmdPduHeader × Bytes)
  | b2 :: b3 :: rest =>
    some ({ header with
        lsf := (b2.toNat >>> 7) &&& 0x01 != 0
        so := (b2.toNat &&& 0x7F) <<< 8 ||| (b3.toNat &&& 0xFF) }, rest)
  | _ => none

/-- What `rlc_am_read_data_pdu_header` reads, with any number of length indicators: the header and
the payload behind it. On a control PDU the source sets `dc` and leaves the rest alone. -/
def parseDataPduHeader : Bytes → Option (AmdPduHeader × Bytes)
  | b0 :: rest =>
    if (b0.toNat >>> 7) &&& 0x01 = 0 then some ({ dc := .controlPdu }, b0 :: rest)
    else
      match rest with
      | b1 :: rest' => do
        let header : AmdPduHeader :=
          { dc := .dataPdu
            rf := (b0.toNat >>> 6) &&& 0x01 != 0
            p := (b0.toNat >>> 5) &&& 0x01 != 0
            fi := .ofNat 2 ((b0.toNat >>> 3) &&& 0x03)
            sn := (b0.toNat &&& 0x03) <<< 8 ||| (b1.toNat &&& 0xFF) }
        let (header, payload) ←
          if header.rf then readSegmentPart header rest' else some (header, rest')
        if (b0.toNat >>> 2) &&& 0x01 = 0 then some (header, payload)
        else do
          let (li, payload) ← readLis payload
          some ({ header with li := li }, payload)
      | [] => none
  | [] => none

/-- `rlc_am_read_data_pdu_header`. The `li` array has 512 elements, and the loop stores behind them
what comes after. -/
def readDataPduHeader (payload : Bytes) : Option (AmdPduHeader × Bytes) := do
  let (header, data) ← parseDataPduHeader payload
  if header.li.length ≤ 512 then some (header, data) else none

/-- `rlc_am_is_control_pdu` on the first byte of a PDU. -/
def isControlPdu (b0 : UInt8) : Bool := (b0.toNat >>> 7) &&& 0x01 == DcField.controlPdu.toNat

/-- `rlc_am_start_aligned` -/
def startAligned (fi : FiField) : Bool := fi == fiStartAndEndAligned || fi == fiNotEndAligned

/-- `rlc_am_end_aligned` -/
def endAligned (fi : FiField) : Bool := fi == fiStartAndEndAligned || fi == fiNotStartAligned

/-! ### STATUS PDU -/

/-- The bit routines of the srslte library that the status PDU functions call, and what
they are relied on for. `unpack` writes the lowest bits of a value, `pack` reads a value
from bits, and the vector forms convert between bytes and bits, the most significant bit
of each byte first. -/
structure SrslteBit where
  /-- `srslte_bit_unpack(value, &bits, nof_bits)` -/
  unpack : Nat → Nat → List Bool
  /-- `srslte_bit_pack(&bits, nof_bits)` on exactly the bits it reads. -/
  pack : List Bool → Nat
  /-- `srslte_bit_pack_vector` -/
  packVector : List Bool → Bytes
  /-- `srslte_bit_unpack_vector` -/
  unpackVector : Bytes → List Bool
  unpack_eq : ∀ v n, unpack v n = (List.range n).reverse.map v.testBit
  pack_unpack : ∀ v n, pack (unpack v n) = v % 2 ^ n
  length_packVector : ∀ bits, bits.length % 8 = 0 → (packVector bits).length = bits.length / 8
  length_unpackVector : ∀ bytes, (unpackVector bytes).length = 8 * bytes.length
  unpackVector_packVector : ∀ bits, bits.length % 8 = 0 → unpackVector (packVector bits) = bits
  head_unpackVector : ∀ b bytes, (unpackVector (b :: bytes)).head? = some (b.toNat.testBit 7)

/-- `rlc_am_packed_length` of a status PDU, in bits. -/
def statusLengthBits (status : StatusPdu) : Nat :=
  15 + (status.nacks.map fun n => if n.hasSo then 42 else 12).sum

/-- `rlc_am_packed_length` of a status PDU. -/
def statusPackedLength (status : StatusPdu) : Nat := (statusLengthBits status + 7) / 8

section
variable (L : SrslteBit)

/-- The loop over the NACKs in `rlc_am_write_status_pdu`. -/
def writeNacks : List StatusNack → List Bool
  | [] => []
  | n :: ns =>
    L.unpack n.nackSn 10
    ++ L.unpack (if ns.isEmpty then 0 else 1) 1
    ++ (if n.hasSo then L.unpack 1 1 ++ L.unpack n.soStart 15 ++ L.unpack n.soEnd 15
        else L.unpack 0 1)
    ++ writeNacks ns

/-- The bits of a status PDU before the padding. -/
def writeStatusBits (status : StatusPdu) : List Bool :=
  L.unpack DcField.controlPdu.toNat 1 ++ L.unpack 0 3 ++ L.unpack status.ackSn 10
  ++ L.unpack (if status.nacks.isEmpty then 0 else 1) 1 ++ writeNacks L status.nacks

/-- `rlc_am_write_status_pdu`. The source always pads, so a multiple of eight bits would
get a byte of padding. -/
def writeStatusPdu (status : StatusPdu) : Bytes :=
  let bits := writeStatusBits L status
  L.packVector (bits ++ L.unpack 0 (8 - bits.length % 8))

/-- One `srslte_bit_pack(&ptr, n)`: the value and the bits behind it. -/
def readField (n : Nat) (bits : List Bool) : Option (Nat × List Bool) :=
  if n ≤ bits.length then some (L.pack (bits.take n), bits.drop n) else none

/-- One NACK of `rlc_am_read_status_pdu`, with the E1 bit behind its sequence number and
the bits that follow. -/
def readNack (bits : List Bool) : Option (StatusNack × Nat × List Bool) := do
  let (nackSn, bits) ← readField L 10 bits
  let (ext1, bits) ← readField L 1 bits
  let (ext2, bits) ← readField L 1 bits
  if ext2 = 0 then some ({ nackSn := nackSn }, ext1, bits)
  else do
    let (soStart, bits) ← readField L 15 bits
    let (soEnd, bits) ← readField L 15 bits
    some ({ nackSn := nackSn, hasSo := true, soStart := soStart, soEnd := soEnd }, ext1, bits)

/-- The `while(ext1)` loop of `rlc_am_read_status_pdu`. The first argument counts the free
slots of the `nacks` array. -/
def readNacks : Nat → List Bool → Option (List StatusNack)
  | 0, _ => none
  | slots + 1, bits => do
    let (nack, ext1, bits) ← readNack L bits
    if ext1 = 0 then some [nack] else (readNacks slots bits).map (nack :: ·)

/-- `rlc_am_read_status_pdu` into a fresh `rlc_status_pdu_t`. A PDU that is not a status
PDU leaves it as constructed. -/
def readStatusPdu (payload : Bytes) : Option StatusPdu := do
  let bits := L.unpackVector payload
  let (dc, bits) ← readField L 1 bits
  if dc ≠ DcField.controlPdu.toNat then some {}
  else do
    let (cpt, bits) ← readField L 3 bits
    -- Another control PDU type leaves the status as constructed.
    if cpt ≠ 0 then some {}
    else do
      let (ackSn, bits) ← readField L 10 bits
      let (ext1, bits) ← readField L 1 bits
      if ext1 = 0 then some { ackSn := ackSn }
      else (readNacks L 512 bits).map fun nacks => { ackSn := ackSn, nacks := nacks }

end

end SrsUE.Rlc
