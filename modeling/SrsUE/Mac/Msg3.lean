import SrsUE.Lib.Memory
import SrsUE.Mac.Mux

/-!
# `SrsUE.Mac.Msg3`: the Msg3 buffer

The part of `mux.cc` that assembles Msg3 in a buffer of its own and copies it from there for every
grant of a random access response. The buffer is a `qbuff` with one message.

`pdu_get` writes into the message itself. `read_pdu` puts every SDU behind the one before, from
`sdu_offset_start` on, and is taken to write as many bytes as it returns. `write_packet` puts
subheaders and control elements in front of them and clears the padding behind them. A function is
`none` where the source writes or reads outside the message.
-/

set_option autoImplicit false

namespace SrsUE.Mac

open SrsUE.Lib
open SrsUE.Rlc (Bytes sub32)

/-- `MSG3_BUFF_SZ` -/
def msg3BuffSz : Nat := 128

/-! ### What is written into the message -/

namespace SchPdu

variable (pdu : SchPdu)

/-- `pdu_start_ptr`, as an index of `buffer_tx`. -/
def pduStart : Nat := pdu.sduOffsetStart - (pdu.cePayloadSz + pdu.headerSz) % 2 ^ 32

/-- What `write_packet` writes behind the removal of an empty subheader. -/
def checkedWrites : List (Nat × Bytes) :=
  if pdu.sduOffsetStart ≤ (pdu.cePayloadSz + pdu.headerSz) % 2 ^ 32 then []
  else (pdu.pduStart, pdu.headerBytes ++ pdu.ceBytes) ::
    if 0 < pdu.paddingLen then
      [(pdu.pduStart + sub32 pdu.pduLen pdu.paddingLen, List.replicate pdu.paddingLen 0)]
    else []

/-- What `write_packet` writes, also if it returns `NULL` afterwards. -/
def packetWrites : List (Nat × Bytes) :=
  if toInt32 pdu.remLen < 0 then [] else pdu.removeEmptyLast.checkedWrites

end SchPdu

/-- What `pdu_get` writes. -/
def PduGetOutcome.writes {ρ : Type} (out : PduGetOutcome ρ) : List (Nat × Bytes) :=
  layOut out.assembly.pdu.sduOffsetStart (out.assembly.reads.map (·.2)) ++
    out.assembly.pdu.packetWrites

/-! ### The buffer -/

/-- `msg3_buff`: the bytes of its message, and `valid` and `len` of the packet. -/
structure Msg3Buff where
  bytes : Bytes := List.replicate msg3BuffSz 0
  valid : Bool := false
  len : Nat := 0
deriving DecidableEq, Repr

namespace Msg3Buff

variable {ρ : Type} (b : Msg3Buff)

/-- `pdu_move_to_msg3`, with what `pdu_get` does if it is called. -/
def pduMoveToMsg3 (out : PduGetOutcome ρ) (pduSz : Nat) : Option (Msg3Buff × Bool) :=
  if b.valid then some (b, false)
  else
    (writeAll b.bytes out.writes).bind fun bytes =>
      if out.ret.isSome then
        (readAt bytes out.assembly.pdu.removeEmptyLast.pduStart pduSz).bind fun msg3Pdu =>
          -- The PDU is moved to the start of the message that it was assembled in.
          (writeAt bytes (0, msg3Pdu)).map fun bytes =>
            ({ bytes := bytes, valid := true, len := pduSz }, true)
      else some ({ b with bytes := bytes }, false)

/-- `msg3_get`: what is in `payload` afterwards, `none` for `NULL`. -/
def msg3Get (out : PduGetOutcome ρ) (pduSz : Nat) : Option (Msg3Buff × Option Bytes) :=
  (if b.valid then some (b, true) else b.pduMoveToMsg3 out pduSz).bind fun (b, moved) =>
    if moved then (readAt b.bytes 0 pduSz).map fun payload => (b, some payload)
    else some (b, none)

end Msg3Buff

end SrsUE.Mac
