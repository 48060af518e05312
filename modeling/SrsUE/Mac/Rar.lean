import SrsUE.Rlc.AmPdu

/-!
# `SrsUE.Mac.Rar`: reading random access responses

The classes `rar_pdu` and `rar_subh` of `pdu.h` and `pdu.cc` (3GPP TS 36.321 Section 6.1.5) as far
as the UE uses them: `init_rx` and `parse_packet`, on an object that is used again for every
response. The loops are those of the class `pdu`, which `sch_pdu` shares.

The bytes that `parse_packet` is given are the PDU and what follows it in the buffer. The readers
return `none` where the source reads past these bytes, or past the end of `subheaders`.
-/

set_option autoImplicit false

namespace SrsUE.Mac

open SrsUE.Rlc (Bytes SrslteBit)

/-- A `rar_subh`. `init` clears all fields but `preamble`. -/
structure RarSubh where
  preamble : Nat := 0
  ta : Nat := 0
  tempRnti : Nat := 0
  grant : List Bool := List.replicate 20 false
deriving DecidableEq, Repr

/-- A `rar_pdu`. -/
structure RarPdu where
  subheaders : List RarSubh
  nofSubheaders : Nat := 0
  backoffIndicator : Nat := 0
  hasBackoffIndicator : Bool := false
deriving DecidableEq, Repr

/-- The constructor. -/
def rarPdu (maxRars : Nat) : RarPdu := { subheaders := List.replicate maxRars {} }

/-- `init_rx`. The backoff indicator is not among what it sets. -/
def RarPdu.initRx (pdu : RarPdu) : RarPdu :=
  { pdu with
    nofSubheaders := 0
    subheaders := pdu.subheaders.map fun s => { preamble := s.preamble } }

/-- The E bit of a subheader. -/
def rarEBit (b : UInt8) : Bool := b.toNat &&& 0x80 != 0

/-- The type of a subheader: a preamble, or the backoff indicator. -/
def rarType (b : UInt8) : Bool := b.toNat &&& 0x40 != 0

/-- What `read_subheader` does to the subheader. -/
def RarSubh.readSubheader (s : RarSubh) (b : UInt8) : RarSubh :=
  if rarType b then { s with preamble := b.toNat &&& 0x3f } else s

/-- What `read_subheader` gives to `set_backoff`. -/
def readBackoff (b : UInt8) : Option Nat := if rarType b then none else some (b.toNat &&& 0xf)

/-- The first loop of `parse_packet`, over the slots for subheaders: those that are used, the
backoff indicator that was set last, and the bytes behind. -/
def readRarSubheaders : List RarSubh → Bytes → Option (List RarSubh × Option Nat × Bytes)
  | [], _ => none
  | _ :: _, [] => none
  | s :: slots, b :: rest =>
    if rarEBit b then
      (readRarSubheaders slots rest).map fun r =>
        (s.readSubheader b :: r.1, r.2.1.or (readBackoff b), r.2.2)
    else some ([s.readSubheader b], readBackoff b, rest)

section
variable (L : SrslteBit)

/-- `read_payload`, with the six bytes it reads. -/
def RarSubh.readPayload (s : RarSubh) (b0 b1 b2 b3 b4 b5 : UInt8) : RarSubh :=
  { s with
    ta := (b0.toNat &&& 0x7f) <<< 4 ||| (b1.toNat &&& 0xf0) >>> 4
    grant := [b1.toNat &&& 0x8 != 0, b1.toNat &&& 0x4 != 0, b1.toNat &&& 0x2 != 0,
        b1.toNat &&& 0x1 != 0] ++ L.unpack b2.toNat 8 ++ L.unpack b3.toNat 8
    tempRnti := b4.toNat <<< 8 ||| b5.toNat }

/-- The second loop of `parse_packet`. Every subheader reads a payload. -/
def readRarPayloads : List RarSubh → Bytes → Option (List RarSubh)
  | [], _ => some []
  | s :: ss, b0 :: b1 :: b2 :: b3 :: b4 :: b5 :: rest =>
    (readRarPayloads ss rest).map (s.readPayload L b0 b1 b2 b3 b4 b5 :: ·)
  | _ :: _, _ => none

/-- `parse_packet` -/
def RarPdu.parsePacket (pdu : RarPdu) (bytes : Bytes) : Option RarPdu := do
  let (used, backoff, rest) ← readRarSubheaders pdu.subheaders bytes
  let read ← readRarPayloads L used rest
  some { subheaders := read ++ pdu.subheaders.drop used.length
         nofSubheaders := used.length
         backoffIndicator := backoff.getD pdu.backoffIndicator
         hasBackoffIndicator := backoff.isSome || pdu.hasBackoffIndicator }

/-- `init_rx` and `parse_packet` -/
def RarPdu.receive (pdu : RarPdu) (bytes : Bytes) : Option RarPdu := pdu.initRx.parsePacket L bytes

end

/-- The subheaders that `next` and `get` go through after `parse_packet`. -/
def RarPdu.responses (pdu : RarPdu) : List RarSubh := pdu.subheaders.take pdu.nofSubheaders

end SrsUE.Mac
