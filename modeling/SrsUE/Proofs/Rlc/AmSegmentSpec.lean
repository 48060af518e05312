import SrsUE.Lib.Cuts
import SrsUE.Rlc.Am

/-!
# `SrsUE.Proofs.Rlc.AmSegmentSpec`: the segments of an AMD PDU

The headers that 36.322 prescribes for the segments of an AMD PDU, stated on the positions
of its bytes. The data of a PDU is divided into SDU pieces: one ends at each position in
`ends`, and the last one at the end of the data. The segment with the bytes `[s, e)` carries
its offset, the last segment flag, the lengths of the pieces that end strictly inside it, and
framing bits that say whether it starts and ends with an SDU.

Nothing here is taken from the code: this is what `build_segment` and
`add_segment_and_check` are compared with.
-/

set_option autoImplicit false

namespace SrsUE.Proofs.Rlc

open SrsUE.Lib
open SrsUE.Rlc

/-- An AMD PDU with its data. No piece of its data is empty, the last one included. Positions
in the data are 16-bit values: a `byte_buffer_t` holds 12756 bytes at most. -/
structure AmdPdu where
  header : AmdPduHeader
  data : Bytes
  pos : ∀ l ∈ header.li, 0 < l
  sum_lt : header.li.sum < data.length
  size : data.length < 2 ^ 16

namespace AmdPdu
variable (P : AmdPdu)

/-- The positions at which SDU pieces end inside the data. -/
def ends : List Nat := pieceEnds 0 P.header.li

/-- Byte `s` is the first byte of an SDU. -/
def startsSdu (s : Nat) : Bool :=
  decide (s = 0) && startAligned P.header.fi || decide (s ∈ P.ends)

/-- An SDU ends in front of byte `e`. -/
def endsSdu (e : Nat) : Bool :=
  decide (e ∈ P.ends) || decide (e = P.data.length) && endAligned P.header.fi

/-- The header of the segment with the bytes `[s, e)`, without poll bit. -/
def segmentHeader (s e : Nat) : AmdPduHeader :=
  { dc := .dataPdu
    rf := true
    fi := (if P.startsSdu s then 0#2 else 2#2) ||| (if P.endsSdu e then 0#2 else 1#2)
    sn := P.header.sn
    lsf := decide (e = P.data.length)
    so := s
    li := gaps s (P.ends.filter fun b => decide (s < b) && decide (b < e)) }

/-- The ends of SDUs are in order. -/
theorem ends_pairwise : P.ends.Pairwise (· < ·) := pairwise_pieceEnds P.pos

/-- None ends at its end without a length indicator. -/
theorem lt_of_mem_ends {b : Nat} (h : b ∈ P.ends) : b < P.data.length := by
  have hle := le_of_mem_pieceEnds h
  have hsum := P.sum_lt
  omega

end AmdPdu

/-- The byte after the last one of a segment. -/
def segStop (s : AmdRxPdu) : Nat := s.header.so + s.buf.length

/-- `s` is a segment of `P`: some of its bytes under the header that belongs to them. The
poll bit is free. -/
structure IsSegment (P : AmdPdu) (s : AmdRxPdu) : Prop where
  nonempty : s.header.so < segStop s
  le : segStop s ≤ P.data.length
  buf : s.buf = (P.data.drop s.header.so).take s.buf.length
  header : ∃ p, s.header = { P.segmentHeader s.header.so (segStop s) with p := p }

/-- The segment with the bytes `[s, e)`. -/
def AmdPdu.segment (P : AmdPdu) (s e : Nat) : AmdRxPdu :=
  { header := P.segmentHeader s e, buf := (P.data.drop s).take (e - s) }

section
variable {P : AmdPdu} {s : AmdRxPdu}

/-- A segment has the sequence number of its PDU. -/
theorem IsSegment.sn (h : IsSegment P s) : s.header.sn = P.header.sn := by
  obtain ⟨p, hp⟩ := h.header
  rw [hp]
  rfl

/-- It says whether it is the last one. -/
theorem IsSegment.lsf (h : IsSegment P s) :
    s.header.lsf = decide (segStop s = P.data.length) := by
  obtain ⟨p, hp⟩ := h.header
  rw [hp]
  rfl

/-- It has a length indicator for each SDU that ends inside of it. -/
theorem IsSegment.li (h : IsSegment P s) :
    s.header.li = gaps s.header.so
      (P.ends.filter fun b => decide (s.header.so < b) && decide (b < segStop s)) := by
  obtain ⟨p, hp⟩ := h.header
  conv_lhs => rw [hp]
  rfl

/-- Its framing says where SDUs start and end. -/
theorem IsSegment.fi (h : IsSegment P s) :
    s.header.fi = (if P.startsSdu s.header.so then 0#2 else 2#2)
      ||| (if P.endsSdu (segStop s) then 0#2 else 1#2) := by
  obtain ⟨p, hp⟩ := h.header
  conv_lhs => rw [hp]
  rfl

/-- So it ends with an SDU when one ends there. -/
theorem IsSegment.endAligned (h : IsSegment P s) :
    endAligned s.header.fi = P.endsSdu (segStop s) := by
  rw [h.fi]
  cases P.startsSdu s.header.so <;> cases P.endsSdu (segStop s) <;> decide

end

end SrsUE.Proofs.Rlc
