import SrsUE.Mac.Contention

/-!
# `SrsUE.Mac.PduRead`: what is read from a control element

The getters of `sch_subh` read from `payload` when it is set and from `w_payload_ce` otherwise.
`init` sets `payload` to `NULL`; `read_payload` points it into the PDU, and `set_sdu` with an
interface into `buffer_tx`, where it stays when the SDU fails and `del_subh` takes the subheader
back. The bytes at `payload` are an argument of the functions here, as the PDU and `buffer_tx` are
not part of a subheader.

`get_con_res_id` is in `SrsUE.Mac.Contention`, where the MAC uses it.
-/

set_option autoImplicit false

namespace SrsUE.Mac

open SrsUE.Rlc (Bytes)

/-- The bytes that `get_c_rnti` and `get_con_res_id` read. -/
def SchSubh.readFrom (s : SchSubh) (payload : Option Bytes) : Bytes := payload.getD s.wPayloadCe

/-- `get_c_rnti`, with the bytes that it reads. -/
def getCRnti (payload : Bytes) : Nat :=
  (payload.getD 0 0).toNat ||| (payload.getD 1 0).toNat <<< 8

/-- The last loop of `get_bsr`, on one of the four entries. -/
def bsrTableValue (buffSize : Nat) : Nat :=
  if buffSize ≠ 0 then btable.getD (buffSize % 64) 0 else buffSize

/-- `get_bsr`: the value it returns, and what it leaves in `buff_size`. The group of a short report
is a variable of its own in an inner block, so zero is returned for every format. -/
def getBsr (lcid : Nat) (payload : Option Bytes) (buffSize : Vector Nat 4) : Int × Vector Nat 4 :=
  match payload with
  | some payload =>
    let b0 := (payload.getD 0 0).toNat
    let b1 := (payload.getD 1 0).toNat
    let b2 := (payload.getD 2 0).toNat
    let nonzeroLcg := 0
    let buffSize :=
      if lcid = lcidLongBsr then
        #v[(b0 &&& 0xFC) >>> 2, (b0 &&& 0x03) <<< 4 ||| (b1 &&& 0xF0) >>> 4,
          (b1 &&& 0x0F) <<< 4 ||| (b1 &&& 0xC0) >>> 6, b2 &&& 0x3F]
      else
        let nonzeroLcg := (b0 &&& 0xc0) >>> 6
        buffSize.setIfInBounds (nonzeroLcg % 4) (b0 &&& 0x3f)
    (nonzeroLcg, buffSize.map bsrTableValue)
  | none => (-1, buffSize)

/-! ### The identity that RRC registers -/

/-- The value of a little-endian integer in memory. -/
def littleEndian : Bytes → Nat
  | [] => 0
  | b :: bs => b.toNat + 256 * littleEndian bs

/-- `uecri` of `send_con_request`, from the bytes of the CCCH SDU. They are put into the eight bytes
of the integer in the opposite order. -/
def uecri (msg : Bytes) : Nat :=
  let nbytes := 6
  littleEndian ((List.range nbytes).foldl (fun p i => p.set (nbytes - i - 1) (msg.getD i 0))
    (List.replicate 8 0))

end SrsUE.Mac
