import Mathlib.Order.Bounds.Basic
import SrsUE.Lib.Run
import SrsUE.Proofs.Rlc.AmDataHeader
import SrsUE.Proofs.Rlc.AmReceive
import SrsUE.Proofs.Rlc.AmStatusPdu
import SrsUE.Proofs.Rlc.ReassemblyRoom

/-!
# `SrsUE.Proofs.Rlc.AmDelivery`: in-sequence delivery

A sender numbers its whole AMD PDUs `0, 1, 2, …` and sends each of them any number of times.
`AmdStream` is such a sender, and `RxReach` is every state that a receiving entity can
reach: PDUs arrive with loss, reordering and duplication, less than 512 indices away from
`vr_r`, and between the arrivals the entity is asked for its buffer state, given SDUs and
granted transmissions in any way.

At any time the SDUs at PDCP are the reassembly of the PDUs below the least index that is missing,
and `rx_sdu` holds their unfinished tail (`AmdStream.Delivered`). The entity can fail before that
only because it looks for the end of no array: `amDelivery_iff` is the result for a whole run. Every
arrival is processed inside the buffers, and delivers what it is to deliver, exactly when the PDUs
that arrive and the SDUs cut out of them fit.
-/

set_option autoImplicit false

namespace SrsUE.Proofs.Rlc

open SrsUE.Lib
open SrsUE.Rlc

/-- A sender's whole AMD PDUs: the header, up to the poll bit, and the data of the PDU with
each index. -/
structure AmdStream where
  header : Nat → AmdPduHeader
  data : Nat → Bytes
  dc : ∀ i, (header i).dc = .dataPdu
  rf : ∀ i, (header i).rf = false
  sn : ∀ i, (header i).sn = i % 1024
  li : ∀ i, (header i).li.sum ≤ (data i).length

/-- The bytes of one transmission of the PDU with index `i`. Each has its own poll bit. -/
def AmdStream.Copy (S : AmdStream) (i : Nat) (bytes : Bytes) : Prop :=
  ∃ p, parseDataPduHeader bytes = some ({ S.header i with p := p }, S.data i)

/-- The stream of bytes and SDU ends in the PDU with index `i`. -/
def AmdStream.tokens (S : AmdStream) (i : Nat) : List (Token UInt8) :=
  pduTokens { header := S.header i, buf := S.data i }

/-- The reassembly of the first `r` PDUs: the complete SDUs, and the unfinished one. -/
def AmdStream.reassembly (S : AmdStream) (r : Nat) : List Bytes × Bytes :=
  deframe [] ((List.range r).flatMap S.tokens)

/-- An entity with the history of its reception: the absolute index `r` of `vr_r`, and the
indices that have arrived. -/
structure RxTrace where
  st : RlcAm
  r : Nat
  received : List Nat

/-- The history after a step to `st'`. The index of `vr_r` moves as far as `vr_r` does. -/
def RxTrace.next (t : RxTrace) (st' : RlcAm) (received : List Nat) : RxTrace :=
  { st := st', r := t.r + modDist 1024 st'.vrR t.st.vrR, received := received }

/-- The calls that bring no PDU from the peer. Both queries of the buffer state check the
reordering timer. -/
def AmCall.isLocal : AmCall → Bool
  | .writeSdu _ | .readPdu _ _ | .getBufferState _ | .getTotalBufferState _ => true
  | .writePdu _ _ | .reset => false

/-- The states of an entity that receives from `S`. -/
inductive RxReach (L : SrslteBit) (S : AmdStream) : RxTrace → Prop where
  | init (cnfg : AmConfig) : RxReach L S { st := configure {} cnfg, r := 0, received := [] }
  | arrival {t : RxTrace} {st' : RlcAm} {bytes : Bytes} (i now : Nat) : RxReach L S t →
      S.Copy i bytes → t.r ≤ i + 512 → i < t.r + 512 →
      writePdu L t.st now bytes = some st' → RxReach L S (t.next st' (i :: t.received))
  | call {t : RxTrace} {st' : RlcAm} (c : AmCall) : RxReach L S t → AmCall.isLocal c = true →
      amStep L t.st c = some st' → RxReach L S (t.next st' t.received)

section
variable {L : SrslteBit} {S : AmdStream} {t : RxTrace}

/-- The copies of the PDU with index `i` in `rx_window`. -/
def AmdStream.Holds (S : AmdStream) (i : Nat) (pdu : AmdRxPdu) : Prop :=
  ∃ p, pdu = { header := { S.header i with p := p }, buf := S.data i }

/-- A copy has the stream of its PDU. -/
theorem AmdStream.pduTokens_of_holds (S : AmdStream) (i : Nat) (pdu : AmdRxPdu)
    (h : S.Holds i pdu) : pduTokens pdu = S.tokens i := by
  obtain ⟨p, rfl⟩ := h
  rfl

/-- A copy is read when its length indicators fit the array. -/
theorem AmdStream.read_copy {i : Nat} {bytes : Bytes} (h : S.Copy i bytes) :
    ∃ p, readDataPduHeader bytes
      = if (S.header i).li.length ≤ 512 then some ({ S.header i with p := p }, S.data i)
        else none := by
  obtain ⟨p, hparse⟩ := h
  exact ⟨p, by rw [readDataPduHeader, hparse]; rfl⟩

/-- For such a copy `write_pdu` returns, and is `handle_data_pdu`. -/
theorem AmdStream.writePdu_copy {i : Nat} {bytes : Bytes} (h : S.Copy i bytes)
    (hli : (S.header i).li.length ≤ 512) (L : SrslteBit) (st : RlcAm) (now : Nat) :
    ∃ p, writePdu L st now bytes
      = some (handleDataPdu st now (S.data i) { S.header i with p := p }) := by
  obtain ⟨p, hread⟩ := AmdStream.read_copy h
  rw [if_pos hli] at hread
  exact ⟨p, writePdu_of_read hread (S.dc i) (S.rf i) L st now⟩

/-- Its copies are those of `handle_data_pdu`. -/
theorem AmdStream.writePduCopies_copy {i : Nat} {bytes : Bytes} (h : S.Copy i bytes)
    (hli : (S.header i).li.length ≤ 512) (st : RlcAm) :
    ∃ header : AmdPduHeader, header.sn = i % 1024 ∧
      S.Holds i { header := header, buf := S.data i } ∧
      writePduCopies st bytes = handleDataPduCopies st (S.data i) header := by
  obtain ⟨p, hread⟩ := AmdStream.read_copy h
  rw [if_pos hli] at hread
  refine ⟨{ S.header i with p := p }, S.sn i, ⟨p, rfl⟩, ?_⟩
  cases bytes with
  | nil => cases hread
  | cons b0 rest =>
    rw [writePduCopies, (isControlPdu_of_read hread).mpr (S.dc i), hread]
    simp [S.rf i]

/-- A copy with more length indicators overwrites what stands behind the array. -/
theorem AmdStream.writePdu_copy_none {i : Nat} {bytes : Bytes} (h : S.Copy i bytes)
    (hli : ¬(S.header i).li.length ≤ 512) (L : SrslteBit) (st : RlcAm) (now : Nat) :
    writePdu L st now bytes = none := by
  obtain ⟨p, hparse⟩ := h
  have hread : readDataPduHeader bytes = none := by
    rw [readDataPduHeader, hparse]
    exact if_neg hli
  cases bytes with
  | nil => cases hparse
  | cons b0 rest =>
    have hdata : isControlPdu b0 = false := by
      rw [← Bool.not_eq_true]
      intro hctl
      have h0 : (b0.toNat >>> 7) &&& 0x01 = 0 := by
        simpa [isControlPdu, DcField.toNat] using hctl
      rw [parseDataPduHeader.eq_def] at hparse
      simp only [if_pos h0] at hparse
      have hdc : DcField.controlPdu = (S.header i).dc :=
        congrArg (fun r => r.1.dc) (Option.some.inj hparse)
      exact DcField.noConfusion (hdc.trans (S.dc i))
    rw [writePdu, hdata, hread]
    rfl

/-- What holds after every step: the receive invariant at the index `r`, and the delivery
of everything below `r`. -/
structure RxTraceInv (S : AmdStream) (t : RxTrace) : Prop where
  window : ∃ ms h, RxInv t.st t.r ms h (· ∈ t.received) S.Holds
  pdcp : t.st.pdcp = (S.reassembly t.r).1
  rxSdu : t.st.rxSdu.getD [] = (S.reassembly t.r).2

/-- The stream of the first `r'` PDUs is that of the first `r` and of those in between. -/
theorem AmdStream.range_flatMap (S : AmdStream) {r r' : Nat} (hle : r ≤ r') :
    (List.range r').flatMap S.tokens
      = (List.range r).flatMap S.tokens ++ (List.range' r (r' - r)).flatMap S.tokens := by
  have hr' : r' = r + (r' - r) := by omega
  conv_lhs => rw [hr', List.range_eq_range', ← List.range'_append_1, List.flatMap_append]
  rw [List.range_eq_range', Nat.zero_add]

/-- Delivering the PDUs from `r` up to `r'` extends the reassembly. -/
theorem AmdStream.reassembly_delivers {st st' : RlcAm} {r r' : Nat} (hle : r ≤ r')
    (hp : st.pdcp = (S.reassembly r).1) (hs : st.rxSdu.getD [] = (S.reassembly r).2)
    (hd : Delivers st st' ((List.range' r (r' - r)).flatMap S.tokens)) :
    st'.pdcp = (S.reassembly r').1 ∧ st'.rxSdu.getD [] = (S.reassembly r').2 := by
  obtain ⟨hdp, hds⟩ := hd
  rw [hs] at hdp hds
  unfold AmdStream.reassembly at hp hs hdp hds ⊢
  rw [S.range_flatMap hle, deframe_append]
  exact ⟨by rw [hdp, hp], hds⟩

/-- A fresh entity has received nothing. -/
theorem rxTraceInv_init (S : AmdStream) (cnfg : AmConfig) :
    RxTraceInv S { st := configure {} cnfg, r := 0, received := [] } where
  window := ⟨0, 0, rxInv_init cnfg _⟩
  pdcp := rfl
  rxSdu := rfl

/-- An arrival moves `vr_r` to the least missing index and delivers up to it. -/
theorem rxTraceInv_arrival (inv : RxTraceInv S t) {st' : RlcAm} {bytes : Bytes} {i now : Nat}
    (hcopy : S.Copy i bytes) (hlo : t.r ≤ i + 512) (hhi : i < t.r + 512)
    (hstep : writePdu L t.st now bytes = some st') :
    RxTraceInv S (t.next st' (i :: t.received)) := by
  obtain ⟨ms, h, hwin⟩ := inv.window
  -- The call has returned, so the length indicators are within their array.
  have hli : (S.header i).li.length ≤ 512 := by
    by_contra hli
    rw [AmdStream.writePdu_copy_none hcopy hli L t.st now] at hstep
    cases hstep
  obtain ⟨p, hcopy⟩ := AmdStream.writePdu_copy hcopy hli L t.st now
  obtain rfl := Option.some.inj (hcopy.symm.trans hstep)
  obtain ⟨r', ms', h', hwin', hrr', hr'le, -, -, -, hdel⟩ :=
    handleDataPdu_spec hwin hlo hhi (show ({ S.header i with p := p } : AmdPduHeader).sn = _ from
      S.sn i) ⟨p, rfl⟩ now
  -- The index that belongs to `vr_r` has moved as far as the sequence number.
  have hr : t.r + modDist 1024
      (handleDataPdu t.st now (S.data i) { S.header i with p := p }).vrR t.st.vrR = r' := by
    rw [hwin'.vrR, hwin.vrR, modDist_of_le hrr' (by omega)]
    omega
  have hrecv : (fun j => j ∈ t.received ∨ j = i) = (· ∈ i :: t.received) := by
    funext j
    rw [List.mem_cons, or_comm]
  obtain ⟨hp, hs⟩ := AmdStream.reassembly_delivers hrr' inv.pdcp inv.rxSdu
    (hdel S.tokens (AmdStream.pduTokens_of_holds S))
  unfold RxTrace.next
  rw [hr]
  exact { window := ⟨ms', h', hrecv ▸ hwin'⟩, pdcp := hp, rxSdu := hs }

/-- The receive half decides the invariant. -/
theorem RxTraceInv.of_rxSame (inv : RxTraceInv S t) {st' : RlcAm} (h : RxSame t.st st') :
    RxTraceInv S { t with st := st' } := by
  obtain ⟨ms, hh, hwin⟩ := inv.window
  exact
    { window := ⟨ms, hh, hwin.of_eq h.vrR h.vrMr h.rxWindow h.vrMs h.vrH h.vrX
        h.reorderingTimeout⟩
      pdcp := h.pdcp.trans inv.pdcp
      rxSdu := by rw [h.rxSdu]; exact inv.rxSdu }

/-- An expiry of the reordering timer moves `vr_ms`, and delivers nothing. -/
theorem RxTraceInv.checkReorderingTimeout (inv : RxTraceInv S t) (now : Nat) :
    RxTraceInv S { t with st := checkReorderingTimeout t.st now } := by
  obtain ⟨ms, hh, hwin⟩ := inv.window
  obtain ⟨ms', hwin', -⟩ := checkReorderingTimeout_spec hwin now
  obtain ⟨_, _, _, _, hf⟩ := checkReorderingTimeout_frame t.st now
  refine { window := ⟨ms', hh, hwin'⟩, pdcp := ?_, rxSdu := ?_ }
  · rw [hf]; exact inv.pdcp
  · rw [hf]; exact inv.rxSdu

/-- A local call leaves the index of `vr_r` where it is. -/
theorem rxTraceInv_call (inv : RxTraceInv S t) {st' : RlcAm} {c : AmCall}
    (hlocal : AmCall.isLocal c = true) (hstep : amStep L t.st c = some st') :
    RxTraceInv S (t.next st' t.received) := by
  have hkeep : RxTraceInv S { t with st := st' } := by
    cases amStep_rxStep hstep with
    | transmit _ _ hsame => exact inv.of_rxSame hsame
    | query _ hsame => exact (inv.checkReorderingTimeout _).of_rxSame hsame
    | pdu _ _ _ => cases hlocal
    | segment _ _ _ => cases hlocal
    | reset => cases hlocal
  obtain ⟨_, _, hwin⟩ := inv.window
  obtain ⟨_, _, hwin'⟩ := hkeep.window
  -- `vr_r` has not moved, so the index that the trace keeps has not either.
  have hr : modDist 1024 st'.vrR t.st.vrR = 0 := by
    rw [hwin.vrR, ← hwin'.vrR, modDist_self (by omega)]
  unfold RxTrace.next
  rw [hr]
  exact hkeep

/-- The invariant holds in every state. -/
theorem rxReach_inv (h : RxReach L S t) : RxTraceInv S t := by
  induction h with
  | init cnfg => exact rxTraceInv_init S cnfg
  | arrival i now _ hcopy hlo hhi hstep ih => exact rxTraceInv_arrival ih hcopy hlo hhi hstep
  | call c _ hlocal hstep ih => exact rxTraceInv_call ih hlocal hstep

end

/-! ### Runs -/

/-- The SDUs at PDCP are the reassembly of the PDUs below `r`, the unfinished tail is in `rx_sdu`,
and `r` is the least index not received. `vr_r` is `r` on the wire. -/
def AmdStream.Delivered (S : AmdStream) (t : RxTrace) : Prop :=
  t.st.pdcp = (S.reassembly t.r).1 ∧ t.st.rxSdu.getD [] = (S.reassembly t.r).2 ∧
    IsLeast {i | i ∉ t.received} t.r ∧ t.st.vrR = t.r % 1024

/-- The arrays hold what has been received: the length indicators and the data of every PDU, and the
SDUs that are cut out of every prefix of the stream that is complete, with its unfinished tail. -/
def AmdStream.FitsBuffers (S : AmdStream) (received : List Nat) : Prop :=
  (∀ i ∈ received, (S.header i).li.length ≤ 512 ∧ (S.data i).length ≤ msgRoom) ∧
  ∀ n, (∀ k < n, k ∈ received) → PiecesWithin msgRoom [] ((List.range n).flatMap S.tokens)

/-- What happens to the entity: a copy of the PDU with index `i` arrives, or a local call is
made. -/
inductive AmdStream.Event (S : AmdStream) where
  | arrival (i : Nat) (bytes : Bytes) (copy : S.Copy i bytes) (now : Nat)
  | call (c : AmCall) (isLocal : AmCall.isLocal c = true)

/-- The copies of a local call. Only `read_pdu` builds a PDU. -/
def callCopies (st : RlcAm) : AmCall → List Nat
  | .readPdu now n => readPduCopies st now n
  | _ => []

/-- The trace after an event that can happen: a PDU is less than 512 indices away from `vr_r`, and a
PDU that the entity sends itself stays in its buffer. -/
def AmdStream.step (L : SrslteBit) (S : AmdStream) (t : RxTrace) : S.Event → Option RxTrace
  | .arrival i bytes _ now =>
    if t.r ≤ i + 512 ∧ i < t.r + 512 then
      (writePdu L t.st now bytes).map fun st' => t.next st' (i :: t.received)
    else none
  | .call c _ =>
    if InRoom (callCopies t.st c) then
      (amStep L t.st c).map fun st' => t.next st' t.received
    else none

/-- What an event is to do: `write_pdu` returns for every copy that can arrive and stays inside its
buffers, and the prefix of the stream is delivered. -/
def AmdStream.StepOk (L : SrslteBit) (S : AmdStream) (t : RxTrace) : S.Event → Prop
  | .arrival i bytes copy now =>
    t.r ≤ i + 512 → i < t.r + 512 → InRoom (writePduCopies t.st bytes) ∧
      ∃ t', S.step L t (.arrival i bytes copy now) = some t' ∧ S.Delivered t'
  | .call c hlocal => ∀ t', S.step L t (.call c hlocal) = some t' → S.Delivered t'

/-- The condition on an event in the state before it. -/
def AmdStream.ArrivalFits (S : AmdStream) (t : RxTrace) : S.Event → Prop
  | .arrival i _ _ _ => t.r ≤ i + 512 → i < t.r + 512 → S.FitsBuffers (i :: t.received)
  | .call _ _ => True

/-- A fresh entity. -/
def rxStart (cnfg : AmConfig) : RxTrace := { st := configure {} cnfg, r := 0, received := [] }

section
variable {L : SrslteBit} {S : AmdStream} {t : RxTrace}

/-- The invariant says what has been delivered. -/
theorem RxTraceInv.delivered (inv : RxTraceInv S t) : S.Delivered t := by
  obtain ⟨ms, hh, hwin⟩ := inv.window
  refine ⟨inv.pdcp, inv.rxSdu, ⟨hwin.missing_r, fun i hi => ?_⟩, hwin.vrR⟩
  by_contra hlt
  exact hi (hwin.below i (Nat.lt_of_not_le hlt))

/-- A PDU that was received before changes nothing. -/
theorem AmdStream.fitsBuffers_known {i : Nat} {received : List Nat} (hi : i ∈ received) :
    S.FitsBuffers (i :: received) ↔ S.FitsBuffers received := by
  have hmem : ∀ k, k ∈ i :: received ↔ k ∈ received := by
    intro k
    rw [List.mem_cons]
    exact or_iff_right_of_imp fun h => h ▸ hi
  unfold AmdStream.FitsBuffers
  simp only [hmem]

/-- A new PDU adds its own length, and the pieces up to the index `r'` that is missing then. -/
theorem AmdStream.fitsBuffers_new {i r r' : Nat} {received : List Nat}
    (hfits : S.FitsBuffers received) (hbelow : ∀ k < r, k ∈ received) (hrr' : r ≤ r')
    (hmiss : ¬(r' ∈ received ∨ r' = i)) (hall : ∀ k, r ≤ k → k < r' → k ∈ received ∨ k = i) :
    S.FitsBuffers (i :: received) ↔
      ((S.header i).li.length ≤ 512 ∧ (S.data i).length ≤ msgRoom) ∧
      PiecesWithin msgRoom (S.reassembly r).2 ((List.range' r (r' - r)).flatMap S.tokens) := by
  have hbelowIntact := hfits.2 r hbelow
  constructor
  · intro h
    refine ⟨h.1 i (List.mem_cons_self ..), ?_⟩
    have hpieces := h.2 r' fun k hk => by
      rw [List.mem_cons, or_comm]
      exact (Nat.lt_or_ge k r).elim (fun hlt => .inl (hbelow k hlt)) fun hge => hall k hge hk
    rw [S.range_flatMap hrr', piecesWithin_append] at hpieces
    exact hpieces.2
  · rintro ⟨hi, hpieces⟩
    refine ⟨fun k hk => ?_, fun n hn => ?_⟩
    · rcases List.mem_cons.mp hk with rfl | hk
      · exact hi
      · exact hfits.1 k hk
    · -- `r'` is missing, so a complete prefix ends there or before.
      have hle : n ≤ r' := by
        by_contra hlt
        exact hmiss ((List.mem_cons.mp (hn r' (Nat.lt_of_not_le hlt))).symm)
      have hwhole : PiecesWithin msgRoom [] ((List.range r').flatMap S.tokens) := by
        rw [S.range_flatMap hrr', piecesWithin_append]
        exact ⟨hbelowIntact, hpieces⟩
      rw [S.range_flatMap hle, piecesWithin_append] at hwhole
      exact hwhole.1

/-- An arrival stays inside the buffers exactly when they hold what has been received then. -/
theorem RxTraceInv.writePduCopies_iff (inv : RxTraceInv S t) (hfits : S.FitsBuffers t.received)
    {i : Nat} {bytes : Bytes} (hcopy : S.Copy i bytes) (hli : (S.header i).li.length ≤ 512)
    (hlo : t.r ≤ i + 512) (hhi : i < t.r + 512) :
    InRoom (writePduCopies t.st bytes) ↔ S.FitsBuffers (i :: t.received) := by
  obtain ⟨ms, h, hwin⟩ := inv.window
  obtain ⟨header, hsn, hholds, hcopies⟩ := AmdStream.writePduCopies_copy hcopy hli t.st
  rw [hcopies]
  by_cases hrecv : i ∈ t.received
  · rw [handleDataPduCopies_known hwin hlo hhi hrecv hsn, AmdStream.fitsBuffers_known hrecv]
    exact ⟨fun _ => hfits, fun _ => nofun⟩
  · have hheld : (t.st.rxSdu.getD []).length ≤ msgRoom := by
      rw [inv.rxSdu]
      exact (hfits.2 t.r hwin.below).2
    have htokens : ∀ j pdu, S.Holds j pdu →
        pduTokens pdu = S.tokens j ∧ pdu.header.li.sum ≤ pdu.buf.length := by
      rintro j pdu ⟨p', rfl⟩
      exact ⟨rfl, S.li j⟩
    obtain ⟨r', hrr', hmiss, hall, hroom⟩ :=
      handleDataPduCopies_inRoom_iff hwin htokens hhi hrecv hsn hholds hheld
    rw [hroom, AmdStream.fitsBuffers_new hfits hwin.below hrr' hmiss hall, inv.rxSdu,
      and_iff_right hli]

/-- An event does what it is to do exactly when it fits, while the buffers hold what was
received. -/
theorem AmdStream.stepOk_iff (inv : RxTraceInv S t) (hfits : S.FitsBuffers t.received)
    (e : S.Event) : S.StepOk L t e ↔ S.ArrivalFits t e := by
  cases e with
  | arrival i bytes copy now =>
    refine forall_congr' fun hlo => forall_congr' fun hhi => ?_
    by_cases hli : (S.header i).li.length ≤ 512
    · obtain ⟨p, hwrite⟩ := AmdStream.writePdu_copy copy hli L t.st now
      rw [← inv.writePduCopies_iff hfits copy hli hlo hhi]
      refine and_iff_left ⟨_, ?_, (rxTraceInv_arrival inv copy hlo hhi hwrite).delivered⟩
      rw [AmdStream.step, if_pos ⟨hlo, hhi⟩, hwrite]
      rfl
    -- The header alone runs over its array, so the step has no result.
    · have hnone := AmdStream.writePdu_copy_none copy hli L t.st now
      constructor
      · rintro ⟨-, t', hstep, -⟩
        rw [AmdStream.step, hnone] at hstep
        split at hstep <;> cases hstep
      · exact fun h => absurd (h.1 i (List.mem_cons_self ..)).1 hli
  | call c hlocal =>
    refine iff_of_true (fun t' hstep => ?_) trivial
    rw [AmdStream.step] at hstep
    split at hstep
    · obtain ⟨st', hst', rfl⟩ := Option.map_eq_some_iff.mp hstep
      exact (rxTraceInv_call inv hlocal hst').delivered
    · cases hstep

/-- An event that fits keeps the invariant, and the buffers hold what was received. -/
theorem AmdStream.step_inv (inv : RxTraceInv S t) (hfits : S.FitsBuffers t.received) {e : S.Event}
    {t' : RxTrace} (he : S.ArrivalFits t e) (hstep : S.step L t e = some t') :
    RxTraceInv S t' ∧ S.FitsBuffers t'.received := by
  cases e with
  | arrival i bytes copy now =>
    rw [AmdStream.step] at hstep
    split at hstep
    · rename_i hrange
      obtain ⟨st', hwrite, rfl⟩ := Option.map_eq_some_iff.mp hstep
      exact ⟨rxTraceInv_arrival inv copy hrange.1 hrange.2 hwrite, he hrange.1 hrange.2⟩
    · cases hstep
  | call c hlocal =>
    rw [AmdStream.step] at hstep
    split at hstep
    · obtain ⟨st', hst', rfl⟩ := Option.map_eq_some_iff.mp hstep
      exact ⟨rxTraceInv_call inv hlocal hst', hfits⟩
    · cases hstep

/-- In a good run a new PDU that arrives fits, and leads to a state with the invariant. -/
theorem AmdStream.fits_of_arrival (inv : RxTraceInv S t) (hfits : S.FitsBuffers t.received)
    {i : Nat} {bytes : Bytes} {copy : S.Copy i bytes} {now : Nat} {events : List S.Event}
    (hnew : i ∉ t.received) (hi : i < 512)
    (h : Throughout (S.step L) (S.StepOk L) t (.arrival i bytes copy now :: events)) :
    ∃ t', RxTraceInv S t' ∧ t'.received = i :: t.received ∧ S.FitsBuffers t'.received ∧
      Throughout (S.step L) (S.StepOk L) t' events := by
  -- The index of `vr_r` is missing, and the least one that is.
  have hlo : t.r ≤ i + 512 := Nat.le_add_right_of_le (inv.delivered.2.2.1.2 hnew)
  have hhi : i < t.r + 512 := by omega
  have he := (AmdStream.stepOk_iff (L := L) inv hfits _).mp h.1
  obtain ⟨-, t', hstep, -⟩ := h.1 hlo hhi
  obtain ⟨inv', hfits'⟩ := AmdStream.step_inv inv hfits he hstep
  refine ⟨t', inv', ?_, hfits', h.2 t' hstep⟩
  rw [AmdStream.step, if_pos ⟨hlo, hhi⟩] at hstep
  obtain ⟨st', -, rfl⟩ := Option.map_eq_some_iff.mp hstep
  rfl

/-- Nothing has been received at the start. -/
theorem AmdStream.fitsBuffers_nil (S : AmdStream) : S.FitsBuffers [] := by
  refine ⟨nofun, fun n hn => ?_⟩
  obtain rfl : n = 0 := by
    by_contra hne
    exact absurd (hn 0 (Nat.pos_of_ne_zero hne)) List.not_mem_nil
  exact ⟨nofun, Nat.zero_le _⟩

end

/-- In every run, every arrival is processed inside the buffers and delivers exactly the in-sequence
prefix of the stream, as long as the arrays hold what arrives and what is cut out of it, and only
then. -/
theorem amDelivery_iff (L : SrslteBit) (S : AmdStream) (cnfg : AmConfig) (events : List S.Event) :
    Throughout (S.step L) (S.StepOk L) (rxStart cnfg) events
      ↔ Throughout (S.step L) S.ArrivalFits (rxStart cnfg) events :=
  throughout_iff (I := fun t => RxTraceInv S t ∧ S.FitsBuffers t.received)
    (fun _ e h => AmdStream.stepOk_iff h.1 h.2 e)
    (fun _ _ _ h he hstep => AmdStream.step_inv h.1 h.2 he hstep) events
    ⟨rxTraceInv_init S cnfg, S.fitsBuffers_nil⟩

/-- A stream in which every PDU ends one SDU with its first byte and starts the next one
with its second. -/
def straddling : AmdStream where
  header i := { dc := .dataPdu, fi := fiNotStartOrEndAligned, sn := i % 1024, li := [1] }
  data i := [.ofNat i, .ofNat (i + 100)]
  dc _ := rfl
  rf _ := rfl
  sn _ := rfl
  li _ := by simp

/-- Each PDU of the stream can arrive with the poll bit clear. -/
theorem straddling_copy (i : Nat) :
    straddling.Copy i (writeDataPduHeader (straddling.header i) ++ straddling.data i) := by
  refine ⟨false, ?_⟩
  rw [parseDataPduHeader_write _ rfl]
  simp [wireHeader, straddling]

/-- An arrival of one of its PDUs. -/
theorem straddling_arrival {t : RxTrace} (h : RxReach msbFirst straddling t) (i : Nat)
    (hlo : t.r ≤ i + 512) (hhi : i < t.r + 512) :
    RxReach msbFirst straddling
      (t.next (handleDataPdu t.st 0 (straddling.data i) (straddling.header i))
        (i :: t.received)) := by
  refine .arrival i 0 h (straddling_copy i) hlo hhi (writePdu_of_read ?_ rfl rfl _ _ _)
  rw [readDataPduHeader_write _ rfl (by simp [straddling])]
  simp [wireHeader, straddling]

/-- Each SDU of the stream has two bytes, and the one that is open has one. -/
theorem straddling_fits (received : List Nat) : straddling.FitsBuffers received := by
  have hpieces : ∀ n, PiecesWithin 2 [] ((List.range n).flatMap straddling.tokens) ∧
      (deframe [] ((List.range n).flatMap straddling.tokens)).2.length ≤ 1 := by
    intro n
    induction n with
    | zero => decide
    | succ n ih =>
      obtain ⟨hwithin, hopen⟩ := ih
      have htokens : straddling.tokens n
          = [some (UInt8.ofNat n), none, some (UInt8.ofNat (n + 100))] := rfl
      rw [List.range_succ, List.flatMap_append, List.flatMap_singleton, piecesWithin_append,
        deframe_append, htokens]
      refine ⟨⟨hwithin, ?_⟩, by simp [deframe]⟩
      simp only [PiecesWithin, deframe, List.forall_mem_singleton, List.length_append,
        List.length_singleton, List.nil_append]
      omega
  refine ⟨fun i _ => ⟨by simp [straddling], Nat.le_of_ble_eq_true rfl⟩, fun n _ => ?_⟩
  obtain ⟨hclosed, hopen⟩ := (hpieces n).1
  have hroom : 2 ≤ msgRoom := by decide
  exact ⟨fun m hm => Nat.le_trans (hclosed m hm) hroom, Nat.le_trans hopen hroom⟩

/-- The second PDU of the stream arrives before the first. -/
theorem amDelivery_swapped :
    Throughout (straddling.step msbFirst) (straddling.StepOk msbFirst) (rxStart {})
      [.arrival 1 _ (straddling_copy 1) 0, .arrival 0 _ (straddling_copy 0) 0] := by
  refine (amDelivery_iff msbFirst straddling {} _).mpr ?_
  exact ⟨fun _ _ => straddling_fits _,
    fun _ _ => ⟨fun _ _ => straddling_fits _, fun _ _ => trivial⟩⟩

/-- A stream of PDUs with 5000 bytes each, all of one SDU. -/
def longSdu : AmdStream where
  header i := { dc := .dataPdu, fi := fiNotStartOrEndAligned, sn := i % 1024 }
  data _ := List.replicate 5000 0
  dc _ := rfl
  rf _ := rfl
  sn _ := rfl
  li _ := Nat.zero_le _

/-- Each PDU of the stream can arrive with the poll bit clear. -/
theorem longSdu_copy (i : Nat) :
    longSdu.Copy i (writeDataPduHeader (longSdu.header i) ++ longSdu.data i) := by
  have hwire : wireHeader (longSdu.header i) = longSdu.header i := by
    simp [wireHeader, show longSdu.header i
      = { dc := .dataPdu, fi := fiNotStartOrEndAligned, sn := i % 1024 } from rfl]
  exact ⟨false, by rw [parseDataPduHeader_write _ rfl, hwire]; rfl⟩

/-- The stream of the first `n` PDUs is the start of one SDU. -/
theorem longSdu_pieces (n : Nat) :
    deframe [] ((List.range n).flatMap longSdu.tokens) = ([], List.replicate (n * 5000) 0) := by
  induction n with
  | zero => rfl
  | succ n ih =>
    have htokens : longSdu.tokens n = (List.replicate 5000 0).map some ++ [] := rfl
    rw [List.range_succ, List.flatMap_append, List.flatMap_singleton, deframe_append, ih, htokens,
      List.append_nil, deframe_data, List.replicate_append_replicate, Nat.succ_mul]
    rfl

/-- The third PDU makes `rx_sdu` longer than its buffer. -/
theorem amDelivery_overrun :
    ¬Throughout (longSdu.step msbFirst) (longSdu.StepOk msbFirst) (rxStart {})
      [.arrival 0 _ (longSdu_copy 0) 0, .arrival 1 _ (longSdu_copy 1) 0,
        .arrival 2 _ (longSdu_copy 2) 0] := by
  intro h₀
  obtain ⟨t₁, inv₁, hreceived₁, hfits₁, h₁⟩ := AmdStream.fits_of_arrival
    (rxTraceInv_init longSdu {}) longSdu.fitsBuffers_nil (by decide) (by decide) h₀
  obtain ⟨t₂, inv₂, hreceived₂, hfits₂, h₂⟩ := AmdStream.fits_of_arrival inv₁ hfits₁
    (by rw [hreceived₁]; decide) (by decide) h₁
  obtain ⟨t₃, -, hreceived₃, hfits₃, -⟩ := AmdStream.fits_of_arrival inv₂ hfits₂
    (by rw [hreceived₂, hreceived₁]; decide) (by decide) h₂
  rw [hreceived₃, hreceived₂, hreceived₁] at hfits₃
  have hopen := (hfits₃.2 3 (by decide)).2
  rw [longSdu_pieces, List.length_replicate] at hopen
  exact absurd hopen (by decide)

end SrsUE.Proofs.Rlc
