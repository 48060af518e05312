import SrsUE.Rlc.Common

/-!
# `SrsUE.Mac.Pdu`: MAC PDUs for UL-SCH and DL-SCH

The classes `pdu`, `sch_subh` and `sch_pdu` of `pdu.h` and `pdu.cc` (3GPP TS 36.321 Section 6). A
`SchPdu` is an `sch_pdu` that is being assembled. An index of `-1` is `none`, and the lengths are
`uint32_t` values.

`buffer_tx` holds the SDUs from `sdu_offset_start` on; these are `sdus` here, and `total_sdu_len` is
their length. `write_packet` puts subheaders and control elements directly in front of them. The
buffer itself is large enough.

The parser of the source does not look at the length of the PDU. `readSubheaders` returns `none`
where the source reads past the bytes it was given, or past the end of `subheaders`.
-/

set_option autoImplicit false

namespace SrsUE.Mac

open SrsUE.Rlc (Bytes sub32)

/-! ### Conversions -/

/-- A `uint32_t` value as an `int`. -/
def toInt32 (n : Nat) : Int := if n < 2 ^ 31 then n else (n : Int) - 2 ^ 32

/-- An `int` as a `uint32_t`. -/
def toUint32 (n : Int) : Nat := (n % 2 ^ 32).toNat

/-! ### `sch_subh` -/

/-- The values of `cetype`. Downlink and uplink share the numbers 28 to 30. -/
abbrev lcidPhrReport : Nat := 26

/-- `CRNTI` -/
abbrev lcidCrnti : Nat := 27

/-- `CON_RES_ID` -/
abbrev lcidConResId : Nat := 28

/-- `TRUNC_BSR` -/
abbrev lcidTruncBsr : Nat := 28

/-- `TA_CMD` -/
abbrev lcidTaCmd : Nat := 29

/-- `SHORT_BSR` -/
abbrev lcidShortBsr : Nat := 29

/-- `LONG_BSR` -/
abbrev lcidLongBsr : Nat := 30

/-- `PADDING` -/
abbrev lcidPadding : Nat := 31

/-- An `sch_subh`. The defaults are those of `init`; the bytes of `w_payload_ce` are not set
there. -/
structure SchSubh where
  lcid : Nat := 0
  nofBytes : Nat := 0
  wPayloadCe : Bytes := List.replicate 8 0
deriving DecidableEq, Repr

/-- `is_sdu`, that is `ce_type() == SDU` -/
def SchSubh.isSdu (s : SchSubh) : Bool := decide (s.lcid < lcidPhrReport)

/-- `sizeof_ce` -/
def sizeofCe (lcid : Nat) (isUl : Bool) : Nat :=
  if isUl then
    if lcid = lcidPhrReport then 1
    else if lcid = lcidCrnti then 2
    else if lcid = lcidTruncBsr then 1
    else if lcid = lcidShortBsr then 1
    else if lcid = lcidLongBsr then 3
    else 0
  else
    if lcid = lcidConResId then 6
    else if lcid = lcidTaCmd then 1
    else 0

/-- `size_header_sdu` -/
def sizeHeaderSdu (nbytes : Nat) : Nat := if nbytes < 128 then 2 else 3

/-- `get_header_size` -/
def SchSubh.getHeaderSize (s : SchSubh) (isLast : Bool) : Nat :=
  if isLast then 1 else if s.isSdu then sizeHeaderSdu s.nofBytes else 1

/-- `write_subheader` -/
def SchSubh.writeSubheader (s : SchSubh) (isLast : Bool) : Bytes :=
  .ofNat ((if isLast then 0 else 1 <<< 5) ||| (s.lcid &&& 0x1f)) ::
    (if s.isSdu && !isLast then
      if 128 ≤ s.nofBytes then
        [.ofNat (1 <<< 7 ||| (s.nofBytes &&& 0x7f00) >>> 8), .ofNat (s.nofBytes &&& 0xff)]
      else [.ofNat (s.nofBytes &&& 0x7f)]
    else [])

/-- `write_payload` of a control element. -/
def SchSubh.writePayload (s : SchSubh) (isUl : Bool) : Bytes :=
  s.wPayloadCe.take (sizeofCe s.lcid isUl)

/-- `set_padding` on a new subheader. -/
def paddingSubh (paddingLen : Nat) : SchSubh := { lcid := lcidPadding, nofBytes := paddingLen }

/-! ### Control elements -/

/-- `btable` -/
def btable : List Nat :=
  [0, 5, 10, 12, 14, 17, 19, 22, 26, 31, 36, 42, 49, 57, 67, 78, 91, 107, 125, 146, 171, 200, 234,
    274, 321, 376, 440, 515, 603, 706, 826, 967, 1132, 1326, 1552, 1817, 2127, 2490, 2915, 3413,
    3995, 4667, 5476, 6411, 7505, 8787, 10287, 12043, 14099, 16507, 19325, 22624, 26487, 31009,
    36304, 42502, 49759, 58255, 68201, 79846, 93479, 109439, 128125, 150000]

/-- `buff_size_table` -/
def buffSizeTable (bufferSize : Nat) : Nat :=
  if bufferSize = 0 then 0
  else if 150000 < bufferSize then 63
  else
    match (List.range 61).find? fun i => bufferSize < btable.getD (i + 2) 0 with
    | some i => 1 + i
    | none => 62

/-- The payload of `set_c_rnti`. The cast to `uint8_t` binds tighter than the shift, so the first
byte is zero. -/
def cRntiPayload (crnti : Nat) : Bytes :=
  [.ofNat ((crnti &&& 0xff00) % 256 >>> 8), .ofNat (crnti &&& 0x00ff)]

/-- The payload of `set_con_res_id`. -/
def conResIdPayload (conResId : Nat) : Bytes :=
  [.ofNat ((conResId &&& 0xff0000000000) >>> 40), .ofNat ((conResId &&& 0x00ff00000000) >>> 32),
    .ofNat ((conResId &&& 0x0000ff000000) >>> 24), .ofNat ((conResId &&& 0x000000ff0000) >>> 16),
    .ofNat ((conResId &&& 0x00000000ff00) >>> 8), .ofNat (conResId &&& 0x0000000000ff)]

/-- The payload of `set_ta_cmd`. -/
def taCmdPayload (taCmd : Nat) : Bytes := [.ofNat (taCmd &&& 0x3f)]

/-- `phr_report_table`. The `float` is a rational number here. -/
def phrReportTable (phrValue : Rat) : Nat :=
  let phrValue := if phrValue < -23 then -23 else phrValue
  let phrValue := if 40 < phrValue then 40 else phrValue
  (phrValue + 23).floor.toNat

/-- The payload of `set_phr`. -/
def phrPayload (phr : Rat) : Bytes := [.ofNat (phrReportTable phr &&& 0x3f)]

/-- `bsr_format_t` -/
inductive BsrFormat where
  | longBsr
  | shortBsr
  | truncBsr
deriving DecidableEq, Repr

/-- `bsr_format_convert` -/
def BsrFormat.lcid : BsrFormat → Nat
  | .longBsr => lcidLongBsr
  | .shortBsr => lcidShortBsr
  | .truncBsr => lcidTruncBsr

/-- The payload that `set_bsr` writes. A short or truncated report is for the last group with
data. -/
def bsrPayload (buffSize : Vector Nat 4) (format : BsrFormat) : Bytes :=
  match format with
  | .longBsr =>
    [.ofNat ((buffSizeTable buffSize[0] &&& 0x3f) <<< 2 |||
      (buffSizeTable buffSize[1] &&& 0xc0) >>> 6),
      .ofNat ((buffSizeTable buffSize[1] &&& 0xf) <<< 4 |||
      (buffSizeTable buffSize[2] &&& 0xf0) >>> 4),
      .ofNat ((buffSizeTable buffSize[2] &&& 0x3) <<< 6 ||| (buffSizeTable buffSize[3] &&& 0x3f))]
  | _ =>
    let nonzeroLcg :=
      (List.range 4).foldl (fun n i => if buffSize.toList.getD i 0 ≠ 0 then i else n) 0
    [.ofNat ((nonzeroLcg &&& 0x3) <<< 6 |||
      (buffSizeTable (buffSize.toList.getD nonzeroLcg 0) &&& 0x3f))]

/-! ### `pdu` -/

/-- An `sch_pdu` in use by a transmitter. -/
structure SchPdu where
  maxSubheaders : Nat
  subheaders : List SchSubh
  nofSubheaders : Nat := 0
  curIdx : Option Nat := none
  pduLen : Nat
  remLen : Nat
  pduIsUl : Bool
  lastSduIdx : Option Nat := none
  sdus : Bytes := []
deriving DecidableEq, Repr

/-- `init_tx` -/
def initTx (maxSubheaders pduLen : Nat) (isUl : Bool) : SchPdu :=
  { maxSubheaders := maxSubheaders
    subheaders := List.replicate maxSubheaders {}
    pduLen := pduLen, remLen := pduLen, pduIsUl := isUl }

namespace SchPdu

variable (pdu : SchPdu)

/-- `sdu_offset_start` -/
def sduOffsetStart : Nat := (pdu.maxSubheaders * 2 + 13) % 2 ^ 32

/-- `next` -/
def next : SchPdu :=
  match pdu.curIdx with
  | none => if 0 < pdu.nofSubheaders then { pdu with curIdx := some 0 } else pdu
  | some i => if i + 1 < pdu.nofSubheaders then { pdu with curIdx := some (i + 1) } else pdu

/-- `new_subh`: the PDU with a new subheader, if there is one left. -/
def newSubh : Option SchPdu :=
  if pdu.nofSubheaders < sub32 pdu.maxSubheaders 1 then
    some { pdu with nofSubheaders := pdu.nofSubheaders + 1 }.next
  else none

/-- `del_subh` -/
def delSubh : SchPdu :=
  { pdu with
    nofSubheaders := pdu.nofSubheaders - 1
    curIdx := match pdu.curIdx with
      | some (i + 1) => some i
      | cur => cur }

/-- `subheaders[i]` -/
def subh (i : Nat) : SchSubh := pdu.subheaders.getD i {}

/-- The subheader that `get` returns, changed by `f`. -/
def modifyCur (f : SchSubh → SchSubh) : SchPdu :=
  match pdu.curIdx with
  | some i => { pdu with subheaders := pdu.subheaders.modify i f }
  | none => pdu

/-! ### Space -/

/-- `has_space_ce` -/
def hasSpaceCe (nbytes : Nat) : Bool := decide (nbytes + 1 ≤ pdu.remLen)

/-- The bytes that a new last SDU adds to the header of the one before. -/
def lastSduLength : Nat :=
  match pdu.lastSduIdx with
  | some i => sizeHeaderSdu (pdu.subh i).nofBytes - 1
  | none => 0

/-- `get_sdu_space`, computed as a `uint32_t` and returned as an `int`. -/
def getSduSpace : Int := toInt32 (sub32 (sub32 pdu.remLen pdu.lastSduLength) 1)

/-- `has_space_sdu`. The comparison is between an `int` and a `uint32_t`, so it is unsigned. -/
def hasSpaceSdu (nbytes : Nat) : Bool := decide (nbytes ≤ toUint32 pdu.getSduSpace)

/-- `update_space_sdu`, where there is space. -/
def updateSpaceSdu (nbytes : Nat) : SchPdu :=
  { pdu with
    remLen := sub32 pdu.remLen (nbytes + 1 + pdu.lastSduLength)
    lastSduIdx := pdu.curIdx }

/-! ### Elements -/

/-- What the setters of the control elements have in common: the space, the payload and the type.
They return false without a change when there is no space. -/
def setCe (lcid : Nat) (payload : Bytes) : SchPdu × Bool :=
  if pdu.hasSpaceCe payload.length then
    ({ pdu.modifyCur fun s =>
          { s with lcid := lcid, nofBytes := payload.length
                   wPayloadCe := payload ++ s.wPayloadCe.drop payload.length } with
        remLen := pdu.remLen - (payload.length + 1) }, true)
  else (pdu, false)

/-- `set_c_rnti` -/
def setCRnti (crnti : Nat) : SchPdu × Bool := pdu.setCe lcidCrnti (cRntiPayload crnti)

/-- `set_con_res_id` -/
def setConResId (conResId : Nat) : SchPdu × Bool :=
  pdu.setCe lcidConResId (conResIdPayload conResId)

/-- `set_ta_cmd` -/
def setTaCmd (taCmd : Nat) : SchPdu × Bool := pdu.setCe lcidTaCmd (taCmdPayload taCmd)

/-- `set_phr` -/
def setPhr (phr : Rat) : SchPdu × Bool := pdu.setCe lcidPhrReport (phrPayload phr)

/-- `set_bsr` -/
def setBsr (buffSize : Vector Nat 4) (format : BsrFormat) : SchPdu × Bool :=
  pdu.setCe format.lcid (bsrPayload buffSize format)

/-- `set_sdu` with a payload. -/
def setSdu (lcid : Nat) (payload : Bytes) : SchPdu × Bool :=
  if pdu.hasSpaceSdu payload.length then
    (({ pdu with sdus := pdu.sdus ++ payload }.updateSpaceSdu payload.length).modifyCur fun s =>
      { s with lcid := lcid, nofBytes := payload.length }, true)
  else (pdu, false)

/-- `set_sdu` with an interface to read from: `sduSz` is what `read_pdu` returns, and `payload` the
bytes it wrote. -/
def setSduFrom (lcid requestedBytes : Nat) (sduSz : Int) (payload : Bytes) : SchPdu × Int :=
  if pdu.hasSpaceSdu requestedBytes then
    let pdu := pdu.modifyCur fun s => { s with lcid := lcid }
    -- The type of the subheader is set before RLC is asked, and stays if there is no SDU.
    if sduSz < 0 ∨ (requestedBytes : Int) < sduSz then (pdu, -1)
    else if sduSz = 0 then (pdu, 0)
    else
      let nofBytes := sduSz.toNat
      let pdu := pdu.modifyCur fun s => { s with nofBytes := nofBytes }
      ({ pdu with sdus := pdu.sdus ++ payload.takeD nofBytes 0 }.updateSpaceSdu nofBytes, sduSz)
  else (pdu, -1)

end SchPdu

/-- A call of one of the setters. -/
inductive SetCall where
  | sdu (lcid : Nat) (payload : Bytes)
  | sduFrom (lcid requestedBytes : Nat) (sduSz : Int) (payload : Bytes)
  | cRnti (crnti : Nat)
  | bsr (buffSize : Vector Nat 4) (format : BsrFormat)
  | conResId (conResId : Nat)
  | taCmd (taCmd : Nat)
  | phr (phr : Rat)
deriving DecidableEq, Repr

namespace SchPdu

variable (pdu : SchPdu)

/-- The setter on the subheader that `get` returns, and whether it succeeds. -/
def set : SetCall → SchPdu × Bool
  | .sdu lcid payload => pdu.setSdu lcid payload
  | .sduFrom lcid requestedBytes sduSz payload =>
    let (pdu, sduLen) := pdu.setSduFrom lcid requestedBytes sduSz payload
    (pdu, decide (0 < sduLen))
  | .cRnti crnti => pdu.setCRnti crnti
  | .bsr buffSize format => pdu.setBsr buffSize format
  | .conResId conResId => pdu.setConResId conResId
  | .taCmd taCmd => pdu.setTaCmd taCmd
  | .phr phr => pdu.setPhr phr

/-- `new_subh` and then a setter. A failed setter is followed by `del_subh`. -/
def attempt (c : SetCall) : SchPdu × Bool :=
  match pdu.newSubh with
  | none => (pdu, false)
  | some pdu =>
    let (pdu, ok) := pdu.set c
    if ok then (pdu, true) else (pdu.delSubh, false)

/-! ### `write_packet` -/

/-- The subheaders in use, with their indices. -/
def indexed : List (SchSubh × Nat) := (pdu.subheaders.take pdu.nofSubheaders).zipIdx

/-- The test at the start of `write_packet`: a last subheader without a payload is removed. Without
subheaders the source reads in front of the array, and `del_subh` has no effect. -/
def removeEmptyLast : SchPdu :=
  if 0 < pdu.nofSubheaders ∧ (pdu.subh (pdu.nofSubheaders - 1)).nofBytes = 0 then pdu.delSubh
  else pdu

/-- `rem_len` once `write_packet` has made its choice of padding: with more than two bytes there is
a subheader for the padding, and the last SDU gets its length field. -/
def paddingLen : Nat :=
  if 2 < pdu.remLen then
    sub32 (sub32 pdu.remLen 1) (match pdu.lastSduIdx with
      | some i => (pdu.subh i).getHeaderSize false - 1
      | none => 0)
  else 0

/-- `onetwo_padding` -/
def onetwoPadding : Nat := if 2 < pdu.remLen then 0 else pdu.remLen

/-- `multibyte_padding` -/
def multibytePadding : Bool := decide (2 < pdu.remLen)

/-- The subheader at `i` is written as the last SDU. -/
def isLastSdu (i : Nat) : Bool := !pdu.multibytePadding && pdu.lastSduIdx == some i

/-- `header_sz` -/
def headerSz : Nat :=
  (pdu.indexed.map fun (s, i) => s.getHeaderSize (pdu.isLastSdu i)).sum
    + (if pdu.multibytePadding then 1 else pdu.onetwoPadding)

/-- `ce_payload_sz` -/
def cePayloadSz : Nat := ((pdu.indexed.filter fun (s, _) => !s.isSdu).map (·.1.nofBytes)).sum

/-- The subheaders that `write_packet` writes. -/
def headerBytes : Bytes :=
  let ceOnly := pdu.lastSduIdx.isNone
  (List.replicate pdu.onetwoPadding ((paddingSubh 0).writeSubheader false)).flatten
    ++ (pdu.indexed.filter fun (s, _) => !s.isSdu).flatMap (fun (s, i) =>
      s.writeSubheader (ceOnly && !pdu.multibytePadding && i + 1 == pdu.nofSubheaders))
    ++ (if ceOnly then [] else (pdu.indexed.filter fun (s, _) => s.isSdu).flatMap fun (s, i) =>
      s.writeSubheader (pdu.isLastSdu i))
    ++ (if pdu.multibytePadding then (paddingSubh pdu.paddingLen).writeSubheader true else [])

/-- The control elements that `write_packet` writes. -/
def ceBytes : Bytes :=
  (pdu.indexed.filter fun (s, _) => !s.isSdu).flatMap fun (s, _) => s.writePayload pdu.pduIsUl

/-- `write_packet` behind the removal of an empty subheader. -/
def writeChecked : Option Bytes :=
  -- No room in front of the SDUs, or the parts do not make up the PDU.
  if pdu.sduOffsetStart ≤ (pdu.cePayloadSz + pdu.headerSz) % 2 ^ 32 then none
  else if (pdu.paddingLen + pdu.headerSz + pdu.cePayloadSz + pdu.sdus.length) % 2 ^ 32 ≠ pdu.pduLen
  then none
  else if (pdu.headerSz + pdu.cePayloadSz) % 2 ^ 32 ≠ (pdu.headerBytes ++ pdu.ceBytes).length then
    none
  else some (pdu.headerBytes ++ pdu.ceBytes ++ pdu.sdus ++ List.replicate pdu.paddingLen 0)

/-- `write_packet`: the bytes from the pointer it returns on, `none` for `NULL`. -/
def writePacket : Option Bytes :=
  if toInt32 pdu.remLen < 0 then none else pdu.removeEmptyLast.writeChecked

end SchPdu

/-! ### Reading -/

/-- An `sch_subh` in use by a receiver. `payload` is relative to the first byte of the PDU. -/
structure RxSubh where
  lcid : Nat
  nofBytes : Nat
  fBit : Bool := false
  payload : Nat := 0
deriving DecidableEq, Repr

/-- `is_sdu` -/
def RxSubh.isSdu (s : RxSubh) : Bool := decide (s.lcid < lcidPhrReport)

/-- `size_plus_header` -/
def RxSubh.sizePlusHeader (s : RxSubh) : Nat :=
  if s.isSdu then sizeHeaderSdu s.nofBytes + s.nofBytes else s.nofBytes + 1

/-- `read_subheader`: the E bit, the subheader and the bytes behind it. -/
def readSubheader (isUl : Bool) : Bytes → Option (Bool × RxSubh × Bytes)
  | [] => none
  | b0 :: rest =>
    let eBit := b0.toNat &&& 0x20 != 0
    let lcid := b0.toNat &&& 0x1f
    if lcid < lcidPhrReport then
      if eBit then
        match rest with
        | [] => none
        | b1 :: rest =>
          if b1.toNat &&& 0x80 != 0 then
            match rest with
            | [] => none
            | b2 :: rest =>
              some (eBit, { lcid := lcid, fBit := true
                            nofBytes := (b1.toNat &&& 0x7f) <<< 8 ||| (b2.toNat &&& 0xff) }, rest)
          else some (eBit, { lcid := lcid, nofBytes := b1.toNat &&& 0x7f }, rest)
      else some (eBit, { lcid := lcid, nofBytes := 0 }, rest)
    else some (eBit, { lcid := lcid, nofBytes := sizeofCe lcid isUl }, rest)

/-- The loop of `pdu::parse_packet` over the subheaders, with `slots` of them left. -/
def readSubheaders (isUl : Bool) : Nat → Bytes → Option (List RxSubh × Bytes)
  | 0, _ => none
  | slots + 1, bytes => do
    let (eBit, s, rest) ← readSubheader isUl bytes
    if eBit then (readSubheaders isUl slots rest).map fun r => (s :: r.1, r.2)
    else some ([s], rest)

/-- The loop of `pdu::parse_packet` over the payloads, which start at `ptr`. -/
def readPayloads : Nat → List RxSubh → List RxSubh
  | _, [] => []
  | ptr, s :: ss => { s with payload := ptr } :: readPayloads (ptr + s.nofBytes) ss

/-- The end of `sch_pdu::parse_packet`, which gives the last subheader what is left of the PDU. The
difference is unsigned, so the test for a negative one is always passed. -/
def correctLast (pduLen : Nat) (ss : List RxSubh) : List RxSubh :=
  match ss.getLast? with
  | none => ss
  | some s =>
    let readLen := ((ss.dropLast.map RxSubh.sizePlusHeader).sum) % 2 ^ 32
    ss.dropLast ++ [{ s with nofBytes := sub32 (sub32 pduLen readLen) 1 }]

/-- `init_rx` and then `parse_packet`, on an object with `maxSubheaders` subheaders. -/
def parsePacket (maxSubheaders : Nat) (isUl : Bool) (bytes : Bytes) : Option (List RxSubh) :=
  (readSubheaders isUl maxSubheaders bytes).map fun (ss, rest) =>
    correctLast bytes.length (readPayloads (bytes.length - rest.length) ss)

end SrsUE.Mac
