import SrsUE.Mac.Pdu

/-!
# `SrsUE.Mac.PduMemory`: the MAC parser on memory

`readSubheaders` of `SrsUE.Mac.Pdu` stops where the source would leave the PDU or the array of
subheaders. The source goes on: `pdu::parse_packet` follows the E bits through memory and looks
neither at `pdu_len` nor at `max_subheaders`. Here the memory from the first byte of the PDU on is a
function, and the loop is followed for any number of rounds. The offsets that are read are part of
the state.
-/

set_option autoImplicit false

namespace SrsUE.Mac

/-- `read_subheader` with `*ptr` at the offset `ptr`: the E bit, the subheader and the number of
bytes that it reads. -/
def readSubheaderAt (isUl : Bool) (mem : Nat → UInt8) (ptr : Nat) : Bool × RxSubh × Nat :=
  let b0 := (mem ptr).toNat
  let b1 := (mem (ptr + 1)).toNat
  let b2 := (mem (ptr + 2)).toNat
  let eBit := b0 &&& 0x20 != 0
  let lcid := b0 &&& 0x1f
  if lcid < lcidPhrReport then
    if eBit then
      if b1 &&& 0x80 != 0 then
        (eBit, { lcid := lcid, fBit := true
                 nofBytes := (b1 &&& 0x7f) <<< 8 ||| (b2 &&& 0xff) }, 3)
      else (eBit, { lcid := lcid, nofBytes := b1 &&& 0x7f }, 2)
    else (eBit, { lcid := lcid, nofBytes := 0 }, 1)
  else (eBit, { lcid := lcid, nofBytes := sizeofCe lcid isUl }, 1)

/-- The variables of `pdu::parse_packet` at the head of its loop over the subheaders. `eBit` is what
the last call of `read_subheader` returned; the first call is always made. -/
structure SubhLoop where
  ptr : Nat := 0
  eBit : Bool := true
  subheaders : List RxSubh := []
  reads : List Nat := []

/-- One call of `read_subheader`, on the next element of the array. -/
def SubhLoop.round (isUl : Bool) (mem : Nat → UInt8) (s : SubhLoop) : SubhLoop :=
  let (eBit, subh, n) := readSubheaderAt isUl mem s.ptr
  { ptr := s.ptr + n
    eBit := eBit
    subheaders := s.subheaders ++ [subh]
    reads := s.reads ++ List.range' s.ptr n }

/-- The loop after `rounds` rounds, or at its end. -/
def SubhLoop.run (isUl : Bool) (mem : Nat → UInt8) : Nat → SubhLoop → SubhLoop
  | 0, s => s
  | rounds + 1, s => if s.eBit then SubhLoop.run isUl mem rounds (s.round isUl mem) else s

/-- What `sch_pdu::parse_packet` reports once the loop is at its end: the payloads start behind the
header, and the last one gets what is left of the PDU. -/
def SubhLoop.parsed (pduLen : Nat) (s : SubhLoop) : List RxSubh :=
  correctLast pduLen (readPayloads s.ptr s.subheaders)

end SrsUE.Mac
