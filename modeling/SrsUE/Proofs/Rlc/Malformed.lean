import SrsUE.Lib.Run
import SrsUE.Proofs.Rlc.AmSteps
import SrsUE.Proofs.Rlc.PduMemory
import SrsUE.Proofs.Rlc.UmReset

/-!
# `SrsUE.Proofs.Rlc.Malformed`: PDUs that are cut off or that lie about their data

A PDU is contained when its header is read inside the PDU, when reassembly copies from PDUs with
enough data only, and when a PDU whose length indicators name more data than it has leaves the
entity as it was. Nothing in `write_pdu` checks any of this. A run is contained exactly when every
PDU is complete, and each with too little data is discarded for its sequence number.

* `amContained_iff`, `umContained_iff`: one call.
* `malformed_contained_iff`: all runs of both kinds of entity.
-/

set_option autoImplicit false

namespace SrsUE.Proofs.Rlc

open SrsUE.Lib
open SrsUE.Rlc

/-! ### Acknowledged mode: what is copied -/

/-- A PDU with the data that its length indicators name. -/
def AmdFits (pdu : AmdRxPdu) : Prop := pdu.header.li.sum ≤ pdu.buf.length

/-- Every PDU and every segment that waits has the data it names. -/
structure AmAllFit (st : RlcAm) : Prop where
  window : ∀ sn pdu, st.rxWindow sn = some pdu → AmdFits pdu
  segments : ∀ sn segments, st.rxSegments sn = some segments → ∀ s ∈ segments, AmdFits s

section
variable {st st' : RlcAm}

/-- The condition is about the window and the segments only. -/
theorem AmAllFit.of_eq (h : AmAllFit st) (hw : st'.rxWindow = st.rxWindow)
    (hs : st'.rxSegments = st.rxSegments) : AmAllFit st' where
  window := by rw [hw]; exact h.window
  segments := by rw [hs]; exact h.segments

/-- Whatever holds of every PDU in the window holds of those that are copied, and of those that
are left. -/
theorem reassembled_all (st : RlcAm) {P : AmdRxPdu → Prop} (rounds : Nat)
    (h : ∀ sn pdu, st.rxWindow sn = some pdu → P pdu) :
    (∀ pdu ∈ reassembledPdus rounds st, P pdu) ∧
      ∀ sn pdu, (reassembleLoop rounds st).rxWindow sn = some pdu → P pdu := by
  induction rounds generalizing st with
  | zero => exact ⟨List.forall_mem_nil _, h⟩
  | succ rounds ih =>
    rw [reassembledPdus, reassembleLoop]
    cases hpdu : st.rxWindow st.vrR with
    | none => exact ⟨List.forall_mem_nil _, h⟩
    | some pdu =>
      have hrest : ∀ sn pdu', (reassemblePdu st pdu).rxWindow sn = some pdu' → P pdu' := by
        intro sn pdu' hsn
        have hsn : st.rxWindow.erase st.vrR sn = some pdu' := hsn
        rw [Dict.erase_apply] at hsn
        split at hsn
        · cases hsn
        · exact h sn pdu' hsn
      obtain ⟨hcopied, hleft⟩ := ih _ hrest
      refine ⟨fun pdu' hmem => ?_, hleft⟩
      rcases List.mem_cons.mp hmem with rfl | hmem
      · exact h _ _ hpdu
      · exact hcopied pdu' hmem

/-- A PDU in the window is copied or stays there. -/
theorem reassembled_or_stays (st : RlcAm) {sn : Nat} {pdu : AmdRxPdu} (rounds : Nat)
    (h : st.rxWindow sn = some pdu) :
    pdu ∈ reassembledPdus rounds st ∨ (reassembleLoop rounds st).rxWindow sn = some pdu := by
  induction rounds generalizing st with
  | zero => exact .inr h
  | succ rounds ih =>
    rw [reassembledPdus, reassembleLoop]
    cases hpdu : st.rxWindow st.vrR with
    | none => exact .inr h
    | some pdu' =>
      by_cases hsn : sn = st.vrR
      · rw [hsn, hpdu] at h
        rw [Option.some.inj h]
        exact .inl (List.mem_cons_self ..)
      · have hkeep : (reassemblePdu st pdu').rxWindow sn = some pdu :=
          (Dict.erase_of_ne _ hsn).trans h
        exact (ih _ hkeep).imp_left (List.mem_cons_of_mem _)

/-! ### Acknowledged mode: segments -/

/-- A 16-bit difference that does not wrap is at most the difference. -/
theorem sub16_le {a b : Nat} (h : b ≤ a) : sub16 a b ≤ a - b := by
  rw [sub16]
  omega

/-- A 16-bit sum is at most the sum. -/
theorem add16_le (a b : Nat) : add16 a b ≤ a + b := Nat.mod_le _ _

/-- The rebuilt length indicators name no more than the segments have, and what is carried over. -/
theorem sum_rebuildLis_le (carryover : Nat) (segments : List AmdRxPdu)
    (h : ∀ s ∈ segments, AmdFits s) :
    (rebuildLis carryover segments).sum ≤ carryover + (segments.flatMap (·.buf)).length := by
  induction segments generalizing carryover with
  | nil => exact Nat.zero_le _
  | cons s segments ih =>
    have hfits : s.header.li.sum ≤ s.buf.length := h s (List.mem_cons_self ..)
    have hrest := fun c => ih c fun s' hs' => h s' (List.mem_cons_of_mem _ hs')
    have hcarry : sub16 s.buf.length s.header.li.sum ≤ s.buf.length - s.header.li.sum :=
      sub16_le hfits
    rw [rebuildLis, List.flatMap_cons, List.length_append]
    generalize s.header.li = li at hfits hcarry ⊢
    have hsum : ∀ lis : List Nat, lis.sum ≤ carryover + li.sum →
        (if endAligned s.header.fi && !segments.isEmpty then
          lis ++ sub16 s.buf.length li.sum :: rebuildLis 0 segments
        else lis ++ rebuildLis (sub16 s.buf.length li.sum) segments).sum
          ≤ carryover + (s.buf.length + (segments.flatMap (·.buf)).length) := by
      intro lis hlis
      split
      · have := hrest 0
        rw [List.sum_append, List.sum_cons]
        omega
      · have := hrest (sub16 s.buf.length li.sum)
        rw [List.sum_append]
        omega
    -- The carryover goes to the first indicator, or is dropped when there is none.
    cases li with
    | nil => exact hsum [] (Nat.zero_le _)
    | cons li lis =>
      have hfirst := add16_le li carryover
      refine hsum (add16 li carryover :: lis) ?_
      simp only [List.sum_cons]
      omega

/-- The ordered insert adds the segment and keeps the others. -/
theorem mem_insertSegment {segment s : AmdRxPdu} {segments : List AmdRxPdu} :
    s ∈ insertSegment segment segments ↔ s = segment ∨ s ∈ segments := by
  induction segments with
  | nil => exact List.mem_cons
  | cons s' segments ih =>
    rw [insertSegment]
    split
    · rw [List.mem_cons, ih, List.mem_cons]
      tauto
    · exact List.mem_cons

/-! ### Acknowledged mode: one data PDU -/

/-- `handle_data_pdu` gives up this PDU for its sequence number. -/
def AmDiscards (st : RlcAm) (sn : Nat) : Prop :=
  insideRxWindow st sn = false ∨ (st.rxWindow sn).isSome = true

/-- A data PDU that is given up is not copied, and only its poll bit has an effect. -/
theorem handleDataPdu_of_discards {header : AmdPduHeader} (h : AmDiscards st header.sn) (now : Nat)
    (payload : Bytes) :
    handleDataPdu st now payload header = pollDiscarded st header ∧
      copiedByDataPdu st payload header = [] := by
  rw [handleDataPdu, copiedByDataPdu]
  rcases h with h | h
  · rw [if_pos (by simp [h]), if_pos (by simp [h])]
    exact ⟨rfl, rfl⟩
  · rw [if_pos h, if_pos h, ite_self, ite_self]
    exact ⟨rfl, rfl⟩

/-- Any other data PDU is stored, and reassembly copies what it finds. -/
theorem handleDataPdu_of_keeps {header : AmdPduHeader} (h : ¬AmDiscards st header.sn) (now : Nat)
    (payload : Bytes) :
    handleDataPdu st now payload header
        = updateReordering (reassembleRxSdus (storeDataPdu st payload header)) now ∧
      copiedByDataPdu st payload header
        = reassembledPdus 1024 { storeDataPdu st payload header with
            rxSdu := some ((storeDataPdu st payload header).rxSdu.getD []) } := by
  rw [AmDiscards, not_or, Bool.not_eq_false] at h
  rw [handleDataPdu, copiedByDataPdu, if_neg (by simp [h.1]), if_neg h.2, if_neg (by simp [h.1]),
    if_neg h.2]
  exact ⟨rfl, rfl⟩

/-- A PDU with its data, in a state where all have theirs. -/
theorem amAllFit_handleDataPdu (hst : AmAllFit st) (now : Nat) {payload : Bytes}
    (header : AmdPduHeader) (hfits : header.li.sum ≤ payload.length) :
    AmAllFit (handleDataPdu st now payload header) ∧
      ∀ pdu ∈ copiedByDataPdu st payload header, AmdFits pdu := by
  by_cases hdisc : AmDiscards st header.sn
  · obtain ⟨heq, hcopied⟩ := handleDataPdu_of_discards hdisc now payload
    rw [heq, hcopied]
    exact ⟨hst.of_eq rfl rfl, nofun⟩
  · obtain ⟨heq, hcopied⟩ := handleDataPdu_of_keeps hdisc now payload
    obtain ⟨_, _, _, _, _, _, _, _, _, _, _, hframe⟩ := keepDataPdu_frame st now payload header
    have hsegments : (handleDataPdu st now payload header).rxSegments = st.rxSegments := by
      rw [heq, hframe]
    obtain ⟨_, _, hr⟩ :=
      updateReordering_frame (reassembleRxSdus (storeDataPdu st payload header)) now
    obtain ⟨_, _, _, _, hs⟩ := storeDataPdu_frame st payload header
    have hwindow : ∀ sn pdu, (storeDataPdu st payload header).rxWindow sn = some pdu →
        AmdFits pdu := by
      intro sn pdu hsn
      rw [hs] at hsn
      simp only [Dict.insert_apply] at hsn
      split at hsn
      · rw [← Option.some.inj hsn]
        exact hfits
      · exact hst.window sn pdu hsn
    obtain ⟨hall, hleft⟩ := reassembled_all { storeDataPdu st payload header with
      rxSdu := some ((storeDataPdu st payload header).rxSdu.getD []) } 1024 hwindow
    refine ⟨⟨?_, ?_⟩, ?_⟩
    · rw [heq, hr]
      exact hleft
    · rw [hsegments]
      exact hst.segments
    · rw [hcopied]
      exact hall

/-- A PDU that is kept is copied, or it waits in the window. Either way it has left its mark. -/
theorem copied_or_waits {header : AmdPduHeader} (h : ¬AmDiscards st header.sn) (now : Nat)
    (payload : Bytes) :
    { header := header, buf := payload } ∈ copiedByDataPdu st payload header ∨
      handleDataPdu st now payload header ≠ st := by
  obtain ⟨heq, hcopied⟩ := handleDataPdu_of_keeps h now payload
  obtain ⟨_, _, _, _, hs⟩ := storeDataPdu_frame st payload header
  have hstored : (storeDataPdu st payload header).rxWindow header.sn
      = some { header := header, buf := payload } := by
    rw [hs]
    exact Dict.insert_self ..
  rw [hcopied]
  refine (reassembled_or_stays { storeDataPdu st payload header with
    rxSdu := some ((storeDataPdu st payload header).rxSdu.getD []) } 1024 hstored).imp_right ?_
  intro hwaits hsame
  obtain ⟨_, _, hr⟩ :=
    updateReordering_frame (reassembleRxSdus (storeDataPdu st payload header)) now
  have hnone : (handleDataPdu st now payload header).rxWindow header.sn
      = some { header := header, buf := payload } := by
    rw [heq, hr]
    exact hwaits
  rw [hsame] at hnone
  exact h (.inr (by rw [hnone]; rfl))

/-! ### Acknowledged mode: one segment -/

/-- Segments that have their data keep the condition. -/
theorem AmAllFit.insert (hst : AmAllFit st) (sn : Nat) {segments : List AmdRxPdu}
    (hfits : ∀ s ∈ segments, AmdFits s) (hw : st'.rxWindow = st.rxWindow)
    (hs : st'.rxSegments = st.rxSegments.insert sn segments) : AmAllFit st' where
  window := by rw [hw]; exact hst.window
  segments := by
    intro sn' l hl
    rw [hs, Dict.insert_apply] at hl
    split at hl
    · rw [← Option.some.inj hl]
      exact hfits
    · exact hst.segments sn' l hl

/-- A segment with its data, in a state where all have theirs. -/
theorem amAllFit_handleDataPduSegment (hst : AmAllFit st) (now : Nat) {payload : Bytes}
    {header : AmdPduHeader} (hfits : header.li.sum ≤ payload.length) :
    AmAllFit (handleDataPduSegment st now payload header) ∧
      ∀ pdu ∈ copiedBySegment st payload header, AmdFits pdu := by
  rw [handleDataPduSegment, copiedBySegment]
  cases hin : insideRxWindow st header.sn with
  | false =>
    rw [storeSegment_outside hin]
    exact ⟨hst.of_eq rfl rfl, List.forall_mem_nil _⟩
  | true =>
    cases hseg : st.rxSegments header.sn with
    | none =>
      obtain ⟨_, _, _, heq⟩ := storeSegment_first hin hseg payload
      rw [heq]
      refine ⟨hst.insert header.sn ?_ rfl rfl, List.forall_mem_nil _⟩
      intro s hs
      rw [List.mem_singleton.mp hs]
      exact hfits
    | some segments =>
      rw [storeSegment_next hin hseg, addSegmentAndCheck_call]
      have hall : ∀ s ∈ insertSegment { header := header, buf := payload } segments, AmdFits s := by
        intro s hs
        rcases mem_insertSegment.mp hs with rfl | hs
        · exact hfits
        · exact hst.segments _ _ hseg s hs
      have hst₁ : AmAllFit { st with
          rxSegments := st.rxSegments.insert header.sn
            (insertSegment { header := header, buf := payload } segments)
          doStatus := st.doStatus || header.p } := hst.insert header.sn hall rfl rfl
      by_cases hcomplete : segmentsComplete 0
          (insertSegment { header := header, buf := payload } segments) = true
      -- The rebuilt PDU goes through the window like a whole one.
      · rw [if_pos hcomplete]
        have hfull := sum_rebuildLis_le 0 _ hall
        rw [Nat.zero_add] at hfull
        obtain ⟨hkeep, hcopied⟩ := amAllFit_handleDataPdu hst₁ now
          (rebuildHeader (insertSegment { header := header, buf := payload } segments)) hfull
        refine ⟨⟨hkeep.window, ?_⟩, hcopied⟩
        intro sn l hl
        have hl : Dict.erase _ header.sn sn = some l := hl
        rw [Dict.erase_apply] at hl
        split at hl
        · cases hl
        · exact hkeep.segments sn l hl
      · rw [if_neg hcomplete]
        exact ⟨hst₁, List.forall_mem_nil _⟩

/-- A segment inside the window leaves its mark. -/
theorem handleDataPduSegment_ne {header : AmdPduHeader} (h : insideRxWindow st header.sn = true)
    (now : Nat) (payload : Bytes) : handleDataPduSegment st now payload header ≠ st := by
  intro hsame
  have hseg : (handleDataPduSegment st now payload header).rxSegments header.sn
      = st.rxSegments header.sn := by rw [hsame]
  rcases handleDataPduSegment_cases st now payload header with
    ⟨hout, -⟩ | ⟨-, hnone, heq⟩ | ⟨-, segments, st₁, hsome, rfl, heq | ⟨data, heq⟩⟩
  · rw [h] at hout
    cases hout
  · obtain ⟨_, hv⟩ := updateVrH_frame { st with
      rxSegments := st.rxSegments.insert header.sn [{ header := header, buf := payload }] }
      header.sn
    rw [heq, hv, hnone] at hseg
    obtain ⟨_, _, hp⟩ := checkPollBit_frame _ header
    rw [hp] at hseg
    simp at hseg
  · rw [heq, hsome] at hseg
    have hlen := congrArg List.length (Option.some.inj ((Dict.insert_self ..).symm.trans hseg))
    rw [length_insertSegment] at hlen
    omega
  · rw [heq, hsome] at hseg
    simp at hseg

/-! ### Acknowledged mode: one call -/

/-- `rlc_am_is_control_pdu` on a PDU. -/
def isControlPayload (payload : Bytes) : Bool := payload.head?.any isControlPdu

/-- `write_pdu` reads the header or the status PDU inside the PDU, whatever is behind it in
memory. -/
def AmReadsInside (L : SrslteBit) (payload : Bytes) : Prop :=
  if isControlPayload payload then
    ∀ bits, Extends bits 0 (L.unpackVector payload) →
      StatusInside L bits (8 * payload.length) (readStatusFixedPart L bits)
  else
    ∀ mem, Extends mem 0 payload → HeaderInside mem payload.length (amReadFixedPart mem)

/-- The bytes hold a whole header or a whole status PDU. -/
def AmComplete (L : SrslteBit) (payload : Bytes) : Prop :=
  if isControlPayload payload then (readStatusPdu L payload).isSome
  else (readDataPduHeader payload).isSome

/-- A call of `write_pdu` is contained. -/
structure AmContained (L : SrslteBit) (st : RlcAm) (now : Nat) (payload : Bytes) : Prop where
  inside : AmReadsInside L payload
  copied : ∀ pdu ∈ copiedByWritePdu st payload, AmdFits pdu
  dropped : ∀ header data, readDataPduHeader payload = some (header, data) → header.dc = .dataPdu →
    data.length < header.li.sum → writePdu L st now payload = some st

/-- The entity gives up a PDU or a segment for its sequence number. -/
def AmGivesUp (st : RlcAm) (header : AmdPduHeader) : Prop :=
  insideRxWindow st header.sn = false ∨
    header.rf = false ∧ (st.rxWindow header.sn).isSome = true

/-- It gives up a PDU, and the poll bit changes nothing. -/
def AmIgnores (st : RlcAm) (header : AmdPduHeader) : Prop :=
  AmGivesUp st header ∧ (header.p = true → st.doStatus = true)

/-- A PDU that is complete and has its data, or is ignored. -/
structure AmHarmless (L : SrslteBit) (st : RlcAm) (payload : Bytes) : Prop where
  complete : AmComplete L payload
  fits : ∀ header data, readDataPduHeader payload = some (header, data) → header.dc = .dataPdu →
    header.li.sum ≤ data.length ∨ AmIgnores st header

variable {L : SrslteBit}

/-- The reader stays inside a PDU exactly when the PDU holds a whole header or status PDU. -/
theorem amReadsInside_iff {payload : Bytes} (hne : payload ≠ []) :
    AmReadsInside L payload ↔ AmComplete L payload := by
  rw [AmReadsInside, AmComplete]
  split
  · constructor
    · intro h
      obtain ⟨bits, hbits⟩ := exists_extends (L.unpackVector payload)
      exact (statusInside_iff hne hbits).mp (h bits hbits)
    · intro h bits hbits
      exact (statusInside_iff hne hbits).mpr h
  · constructor
    · intro h
      obtain ⟨mem, hmem⟩ := exists_extends payload
      exact (amHeaderInside_iff hne hmem).mp (h mem hmem)
    · intro h mem hmem
      exact (amHeaderInside_iff hne hmem).mpr h

/-- A data PDU with a readable header goes to the handler for its kind. -/
theorem writePdu_of_data (L : SrslteBit) (st : RlcAm) (now : Nat) {payload data : Bytes}
    {header : AmdPduHeader}
    (hread : readDataPduHeader payload = some (header, data)) (hdc : header.dc = .dataPdu) :
    writePdu L st now payload = some (if header.rf then handleDataPduSegment st now data header
        else handleDataPdu st now data header) ∧
      copiedByWritePdu st payload = if header.rf then copiedBySegment st data header
        else copiedByDataPdu st data header := by
  constructor
  · cases payload with
    | nil => cases hread
    | cons b0 rest =>
      rw [writePdu, (isControlPdu_of_read hread).mpr hdc, hread]
      cases hrf : header.rf with
      | false => simp [hrf]
      | true => simp [hrf]
  · rw [copiedByWritePdu, hread]
    simp only [hdc]
    rw [if_neg (by decide)]

/-- Of a PDU that is given up the poll bit remains. -/
theorem AmGivesUp.result {header : AmdPduHeader} (h : AmGivesUp st header) (now : Nat)
    (data : Bytes) :
    (if header.rf then handleDataPduSegment st now data header
      else handleDataPdu st now data header) = pollDiscarded st header ∧
      (if header.rf then copiedBySegment st data header
        else copiedByDataPdu st data header) = [] := by
  rw [AmGivesUp] at h
  cases hrf : header.rf with
  | true =>
    rw [hrf] at h
    have hout : insideRxWindow st header.sn = false := h.resolve_right (by simp)
    rw [if_pos rfl, if_pos rfl, handleDataPduSegment, copiedBySegment, storeSegment_outside hout]
    exact ⟨rfl, rfl⟩
  | false =>
    rw [if_neg Bool.false_ne_true, if_neg Bool.false_ne_true]
    exact handleDataPdu_of_discards (h.imp_right And.right) now data

/-- The poll bit of a PDU that is given up changes nothing when it is clear or a report is due
already. -/
theorem pollDiscarded_eq_iff {header : AmdPduHeader} :
    pollDiscarded st header = st ↔ (header.p = true → st.doStatus = true) := by
  constructor
  · intro h hp
    have hdo : (st.doStatus || header.p) = st.doStatus := congrArg RlcAm.doStatus h
    rw [← hdo, hp, Bool.or_true]
  · intro h
    have hdo : (st.doStatus || header.p) = st.doStatus := by
      cases hp : header.p with
      | false => exact Bool.or_false _
      | true => rw [h hp, Bool.or_true]
    rw [pollDiscarded, hdo]

/-- A PDU that is neither copied nor changes the entity is ignored. -/
theorem amIgnores_of_unchanged {now : Nat} {header : AmdPduHeader} {data : Bytes}
    (hsame : (if header.rf then handleDataPduSegment st now data header
      else handleDataPdu st now data header) = st)
    (hcopied : ({ header := header, buf := data } : AmdRxPdu) ∉
      (if header.rf then copiedBySegment st data header else copiedByDataPdu st data header)) :
    AmIgnores st header := by
  have hup : AmGivesUp st header := by
    rw [AmGivesUp]
    cases hrf : header.rf with
    | true =>
      rw [hrf, if_pos rfl] at hsame
      refine .inl ?_
      by_contra hin
      exact handleDataPduSegment_ne (by simpa using hin) now data hsame
    | false =>
      rw [hrf, if_neg Bool.false_ne_true] at hsame hcopied
      have hgone : AmDiscards st header.sn := by
        by_contra hkeep
        exact (copied_or_waits hkeep now data).elim hcopied fun h => h hsame
      exact hgone.imp_right fun h => ⟨rfl, h⟩
  rw [(hup.result now data).1] at hsame
  exact ⟨hup, pollDiscarded_eq_iff.mp hsame⟩

/-- A PDU with its data keeps the invariant, and all PDUs that are copied have theirs. -/
theorem amAllFit_dataPdu (hst : AmAllFit st) (now : Nat) {header : AmdPduHeader} {data : Bytes}
    (hfits : header.li.sum ≤ data.length) :
    AmAllFit (if header.rf then handleDataPduSegment st now data header
        else handleDataPdu st now data header) ∧
      ∀ pdu ∈ (if header.rf then copiedBySegment st data header
        else copiedByDataPdu st data header), AmdFits pdu := by
  split
  · exact amAllFit_handleDataPduSegment hst now hfits
  · exact amAllFit_handleDataPdu hst now header hfits

/-- A PDU that is no data PDU has nothing copied. -/
theorem copiedByWritePdu_of_control {payload : Bytes}
    (h : ∀ header data, readDataPduHeader payload = some (header, data) → header.dc ≠ .dataPdu) :
    copiedByWritePdu st payload = [] := by
  rw [copiedByWritePdu]
  cases hread : readDataPduHeader payload with
  | none => rfl
  | some r =>
    obtain ⟨header, data⟩ := r
    have hdc := h header data hread
    have hctl : header.dc = .controlPdu := by
      cases hc : header.dc with
      | controlPdu => rfl
      | dataPdu => exact absurd hc hdc
    simp only [hctl, if_true]

/-- A call of `write_pdu` is contained exactly when the PDU is harmless, if every waiting PDU has
its data. -/
theorem amContained_iff (hst : AmAllFit st) (now : Nat) {payload : Bytes} (hne : payload ≠ []) :
    AmContained L st now payload ↔ AmHarmless L st payload := by
  constructor
  · intro h
    refine ⟨(amReadsInside_iff hne).mp h.inside, fun header data hread hdc => ?_⟩
    by_cases hfits : header.li.sum ≤ data.length
    · exact .inl hfits
    · obtain ⟨hwrite, hcopies⟩ := writePdu_of_data L st now hread hdc
      have hsame := h.dropped header data hread hdc (by omega)
      have hcopied := h.copied
      rw [hwrite] at hsame
      rw [hcopies] at hcopied
      exact .inr (amIgnores_of_unchanged (Option.some.inj hsame) fun hmem => hfits (hcopied _ hmem))
  · intro h
    refine ⟨(amReadsInside_iff hne).mpr h.complete, ?_, fun header data hread hdc hlong => ?_⟩
    · by_cases hdata : ∃ header data, readDataPduHeader payload = some (header, data) ∧
          header.dc = .dataPdu
      · obtain ⟨header, data, hread, hdc⟩ := hdata
        rw [(writePdu_of_data L st now hread hdc).2]
        rcases h.fits header data hread hdc with hfits | hign
        · exact (amAllFit_dataPdu hst now hfits).2
        · rw [(hign.1.result now data).2]
          exact nofun
      · rw [copiedByWritePdu_of_control fun header data hread hdc =>
          hdata ⟨header, data, hread, hdc⟩]
        exact nofun
    · have hign : AmIgnores st header := (h.fits header data hread hdc).resolve_left (by omega)
      rw [(writePdu_of_data L st now hread hdc).1, (hign.1.result now data).1,
        pollDiscarded_eq_iff.mpr hign.2]

/-! ### Acknowledged mode: runs -/

/-- What is asked of a call. Only `write_pdu` takes bytes from the peer. -/
def AmCallContained (L : SrslteBit) (st : RlcAm) : AmCall → Prop
  | .writePdu now payload => payload ≠ [] → AmContained L st now payload
  | _ => True

def AmCallHarmless (L : SrslteBit) (st : RlcAm) : AmCall → Prop
  | .writePdu _ payload => payload ≠ [] → AmHarmless L st payload
  | _ => True

/-- The same for any call of the entity. -/
theorem amCallContained_iff (hst : AmAllFit st) (c : AmCall) :
    AmCallContained L st c ↔ AmCallHarmless L st c := by
  cases c with
  | writePdu now payload => exact forall_congr' fun hne => amContained_iff hst now hne
  | _ => exact Iff.rfl

/-- A harmless data PDU or segment keeps the condition. -/
theorem amAllFit_data {now : Nat} {payload data : Bytes} {header : AmdPduHeader} (hst : AmAllFit st)
    (hread : readDataPduHeader payload = some (header, data)) (hdc : header.dc = .dataPdu)
    (h : AmCallHarmless L st (.writePdu now payload)) :
    AmAllFit (if header.rf then handleDataPduSegment st now data header
      else handleDataPdu st now data header) := by
  have hne : payload ≠ [] := by
    rintro rfl
    cases hread
  rcases (h hne).fits header data hread hdc with hfits | hign
  · exact (amAllFit_dataPdu hst now hfits).1
  · rw [(hign.1.result now data).1]
    exact hst.of_eq rfl rfl

/-- Every harmless call keeps it. -/
theorem amAllFit_step {c : AmCall} (hst : AmAllFit st) (h : AmCallHarmless L st c)
    (hstep : amStep L st c = some st') : AmAllFit st' := by
  cases amStep_rxStep hstep with
  | transmit _ _ same => exact hst.of_eq same.rxWindow same.rxSegments
  | pdu read dc rf =>
    have := amAllFit_data hst read dc h
    rwa [if_neg (by simp [rf])] at this
  | segment read dc rf =>
    have := amAllFit_data hst read dc h
    rwa [if_pos rf] at this
  | @query now _ _ _ same =>
    obtain ⟨_, _, _, _, hframe⟩ := checkReorderingTimeout_frame st now
    refine hst.of_eq (same.rxWindow.trans ?_) (same.rxSegments.trans ?_)
    · rw [hframe]
    · rw [hframe]
  | reset => exact ⟨nofun, nofun⟩

end

/-- Nothing waits in a configured entity. -/
theorem amAllFit_configure (cnfg : AmConfig) : AmAllFit (configure {} cnfg) where
  window sn pdu h := by cases h
  segments sn l h := by cases h

/-! ### Unacknowledged mode: what is copied -/

section
variable {st st' : Um.RlcUmRx}

/-- A PDU with the data that its length indicators name. -/
def UmdFits (pdu : Um.UmdPdu) : Prop := pdu.header.li.sum ≤ pdu.buf.length

/-- Every PDU that waits has the data it names. -/
def UmAllFit (st : Um.RlcUmRx) : Prop := ∀ sn pdu, st.rxWindow sn = some pdu → UmdFits pdu

/-- A part of reassembly, with the PDUs it copies: these all come from the window, and a PDU in the
window is copied or stays. -/
structure TakesFromWindow (st st' : Um.RlcUmRx) (copied : List Um.UmdPdu) : Prop where
  taken : ∀ pdu ∈ copied, ∃ sn, st.rxWindow sn = some pdu
  left : ∀ sn pdu, st'.rxWindow sn = some pdu → st.rxWindow sn = some pdu
  all : ∀ sn pdu, st.rxWindow sn = some pdu → pdu ∈ copied ∨ st'.rxWindow sn = some pdu

/-- Nothing is taken where the window stays as it is. -/
theorem TakesFromWindow.of_eq (h : st'.rxWindow = st.rxWindow) : TakesFromWindow st st' [] where
  taken := nofun
  left := by rw [h]; exact fun _ _ => id
  all := by rw [h]; exact fun _ _ => .inr

/-- Two parts of reassembly copy what each of them copies. -/
theorem TakesFromWindow.trans {st'' : Um.RlcUmRx} {l l' : List Um.UmdPdu}
    (h : TakesFromWindow st st' l) (h' : TakesFromWindow st' st'' l') :
    TakesFromWindow st st'' (l ++ l') where
  taken pdu hmem := by
    rcases List.mem_append.mp hmem with hmem | hmem
    · exact h.taken pdu hmem
    · obtain ⟨sn, hsn⟩ := h'.taken pdu hmem
      exact ⟨sn, h.left sn pdu hsn⟩
  left sn pdu hsn := h.left sn pdu (h'.left sn pdu hsn)
  all sn pdu hsn := by
    rcases h.all sn pdu hsn with hmem | hsn'
    · exact .inl (List.mem_append_left _ hmem)
    · exact (h'.all sn pdu hsn').imp_left (List.mem_append_right _)

/-- The PDU at `vr_ur` is copied. -/
theorem takes_reassemblePdu {pdu : Um.UmdPdu} (h : st.rxWindow st.vrUr = some pdu) :
    TakesFromWindow st (Um.reassemblePdu st pdu).advance [pdu] := by
  obtain ⟨_, _, _, _, hframe⟩ := umReassemblePdu_frame st pdu
  have hwindow : (Um.reassemblePdu st pdu).advance.rxWindow = st.rxWindow.erase st.vrUr := by
    show (Um.reassemblePdu st pdu).rxWindow = _
    rw [hframe]
  refine ⟨fun pdu' hmem => ⟨st.vrUr, ?_⟩, fun sn pdu' hsn => ?_, fun sn pdu' hsn => ?_⟩
  · rw [List.mem_singleton.mp hmem]
    exact h
  · rw [hwindow, Dict.erase_apply] at hsn
    split at hsn
    · cases hsn
    · exact hsn
  · rw [hwindow]
    by_cases heq : sn = st.vrUr
    · rw [heq, h] at hsn
      rw [← Option.some.inj hsn]
      exact .inl (List.mem_singleton_self _)
    · exact .inr ((Dict.erase_of_ne _ heq).trans hsn)

/-- The loop up to `vr_uh` minus the window size. Induction on the rounds. -/
theorem takes_catchUp (rounds : Nat) (st : Um.RlcUmRx) :
    TakesFromWindow st (Um.catchUp rounds st) (Um.caughtUpPdus rounds st) := by
  induction rounds generalizing st with
  | zero => exact .of_eq rfl
  | succ rounds ih =>
    rw [Um.catchUp, Um.caughtUpPdus]
    split
    · exact .of_eq rfl
    · refine .trans ?_ (ih _)
      rw [Um.catchUpRound]
      cases hpdu : st.rxWindow st.vrUr with
      | none => exact .of_eq rfl
      | some pdu => exact takes_reassemblePdu hpdu

/-- The loop that moves `vr_ur` over the PDUs received. Induction on the rounds. -/
theorem takes_updateVrUr (rounds : Nat) (st : Um.RlcUmRx) :
    TakesFromWindow st (Um.updateVrUr rounds st) (Um.updatedPdus rounds st) := by
  induction rounds generalizing st with
  | zero => exact .of_eq rfl
  | succ rounds ih =>
    rw [Um.updateVrUr, Um.updatedPdus]
    cases hpdu : st.rxWindow st.vrUr with
    | none => exact .of_eq rfl
    | some pdu => exact (takes_reassemblePdu hpdu).trans (ih _)

/-- `reassemble_rx_sdus` is the two loops, one after the other. -/
theorem takes_reassembleRxSdus (st : Um.RlcUmRx) :
    TakesFromWindow st (Um.reassembleRxSdus st) (Um.copiedPdus st) :=
  (takes_catchUp st.rxMod st).trans (takes_updateVrUr st.rxMod _)

/-- The loop of the timer that passes the missing sequence numbers. -/
theorem takes_skipMissing (rounds : Nat) (st : Um.RlcUmRx) :
    TakesFromWindow st (Um.skipMissing rounds st) (Um.copiedBySkipping rounds st) := by
  induction rounds generalizing st with
  | zero => exact .of_eq rfl
  | succ rounds ih =>
    rw [Um.skipMissing, Um.copiedBySkipping]
    split
    · have hadvance : TakesFromWindow st st.advance [] := .of_eq rfl
      exact (hadvance.trans (takes_reassembleRxSdus _)).trans (ih _)
    · exact .of_eq rfl

/-- The timer passes what is missing, and reassembly goes on behind it. -/
theorem takes_timerExpired (st : Um.RlcUmRx) :
    TakesFromWindow st (Um.timerExpired st) (Um.copiedByTimer st) := by
  have hskip := takes_skipMissing st.rxMod { st with pduLost := true, rxSdu := [] }
  have hsame : (Um.timerExpired st).rxWindow
      = (Um.skipMissing st.rxMod { st with pduLost := true, rxSdu := [] }).rxWindow := by
    rw [Um.timerExpired]
    obtain ⟨_, _, hframe⟩ := umStartReordering_frame
      { Um.skipMissing st.rxMod { st with pduLost := true, rxSdu := [] } with
        reorderingTimer :=
          (Um.skipMissing st.rxMod { st with pduLost := true, rxSdu := [] }).reorderingTimer.stop }
    rw [hframe]
  have h := hskip.trans (.of_eq hsame)
  rw [List.append_nil] at h
  exact ⟨h.taken, h.left, h.all⟩

/-- A step of the timer takes PDUs only when it expires. -/
theorem takes_timerStep (st : Um.RlcUmRx) :
    TakesFromWindow st (Um.stepReorderingTimer st) (Um.copiedByTimerStep st) := by
  rw [Um.stepReorderingTimer, Um.copiedByTimerStep]
  simp only
  split
  · have h := takes_timerExpired { st with reorderingTimer := st.reorderingTimer.step.1 }
    exact ⟨h.taken, h.left, h.all⟩
  · exact .of_eq rfl

/-! ### Unacknowledged mode: one call -/

/-- `handle_data_pdu` gives up this PDU for its sequence number. -/
def UmGivesUp (st : Um.RlcUmRx) (sn : Nat) : Prop :=
  (st.rxModBase (sub32 st.vrUh st.rxWindowSize) ≤ st.rxModBase sn
      ∧ st.rxModBase sn < st.rxModBase st.vrUr)
    ∨ (st.rxWindow sn).isSome = true

/-- A PDU that is given up changes nothing and is not copied. -/
theorem UmGivesUp.result {header : UmdPduHeader} (h : UmGivesUp st header.sn) (buf : Bytes) :
    Um.receivePdu st header buf = st ∧ Um.copiedByPdu st header buf = [] := by
  rw [Um.receivePdu, Um.copiedByPdu]
  rcases h with h | h
  · rw [if_pos h, if_pos h]
    exact ⟨rfl, rfl⟩
  · rw [if_pos h, if_pos h, ite_self, ite_self]
    exact ⟨rfl, rfl⟩

/-- A PDU that is kept goes to the window, and reassembly takes from there. -/
theorem takes_receivePdu {header : UmdPduHeader} (h : ¬UmGivesUp st header.sn) (buf : Bytes) :
    TakesFromWindow (Um.storeDataPdu st header buf) (Um.receivePdu st header buf)
      (Um.copiedByPdu st header buf) := by
  rw [UmGivesUp, not_or] at h
  rw [Um.receivePdu, Um.copiedByPdu, if_neg h.1, if_neg h.2, if_neg h.1, if_neg h.2]
  obtain ⟨_, _, hframe⟩ :=
    umUpdateReordering_frame (Um.reassembleRxSdus (Um.storeDataPdu st header buf))
  have hsame : TakesFromWindow (Um.reassembleRxSdus (Um.storeDataPdu st header buf))
      (Um.updateReordering (Um.reassembleRxSdus (Um.storeDataPdu st header buf))) [] :=
    .of_eq (by rw [hframe])
  have ht := (takes_reassembleRxSdus (Um.storeDataPdu st header buf)).trans hsame
  rwa [List.append_nil] at ht

/-- A PDU that is kept is stored at its sequence number. -/
theorem umStoreDataPdu_rxWindow (st : Um.RlcUmRx) (header : UmdPduHeader) (buf : Bytes) :
    (Um.storeDataPdu st header buf).rxWindow
      = st.rxWindow.insert header.sn { header := header, buf := buf } := by
  rw [Um.storeDataPdu]
  simp only
  split <;> rfl

/-- A PDU with its data, in a state where all have theirs. -/
theorem umAllFit_receivePdu (hst : UmAllFit st) {header : UmdPduHeader} {buf : Bytes}
    (hfits : header.li.sum ≤ buf.length) :
    UmAllFit (Um.receivePdu st header buf) ∧ ∀ pdu ∈ Um.copiedByPdu st header buf, UmdFits pdu := by
  by_cases hup : UmGivesUp st header.sn
  · obtain ⟨heq, hcopied⟩ := hup.result buf
    rw [heq, hcopied]
    exact ⟨hst, nofun⟩
  · have ht := takes_receivePdu hup buf
    have hstored : UmAllFit (Um.storeDataPdu st header buf) := by
      intro sn pdu hsn
      rw [umStoreDataPdu_rxWindow, Dict.insert_apply] at hsn
      split at hsn
      · rw [← Option.some.inj hsn]
        exact hfits
      · exact hst sn pdu hsn
    refine ⟨fun sn pdu hsn => hstored sn pdu (ht.left sn pdu hsn), fun pdu hmem => ?_⟩
    obtain ⟨sn, hsn⟩ := ht.taken pdu hmem
    exact hstored sn pdu hsn

/-- A PDU that is neither copied nor changes the entity is given up. -/
theorem umGivesUp_of_unchanged {header : UmdPduHeader} {buf : Bytes}
    (hsame : Um.receivePdu st header buf = st)
    (hcopied : ({ header := header, buf := buf } : Um.UmdPdu) ∉ Um.copiedByPdu st header buf) :
    UmGivesUp st header.sn := by
  by_contra hup
  have hstored : (Um.storeDataPdu st header buf).rxWindow header.sn
      = some { header := header, buf := buf } := by
    rw [umStoreDataPdu_rxWindow]
    exact Dict.insert_self ..
  rcases (takes_receivePdu hup buf).all _ _ hstored with hmem | hwaits
  · exact hcopied hmem
  · rw [hsame] at hwaits
    exact hup (.inr (by rw [hwaits]; rfl))

/-- A call of `write_pdu` is contained. -/
structure UmContained (st : Um.RlcUmRx) (payload : Bytes) : Prop where
  inside : ∀ mem, Extends mem 0 payload →
    HeaderInside mem payload.length (umReadFixedPart mem st.rxSnFieldLength)
  copied : ∀ pdu ∈ Um.copiedByWritePdu st payload, UmdFits pdu
  dropped : ∀ header buf, Um.readDataPduHeader st.rxSnFieldLength payload = some (header, buf) →
    buf.length < header.li.sum → Um.handleDataPdu st payload = some st

/-- A PDU that is complete and has its data, or is given up. -/
structure UmHarmless (st : Um.RlcUmRx) (payload : Bytes) : Prop where
  complete : (Um.readDataPduHeader st.rxSnFieldLength payload).isSome
  fits : ∀ header buf, Um.readDataPduHeader st.rxSnFieldLength payload = some (header, buf) →
    header.li.sum ≤ buf.length ∨ UmGivesUp st header.sn

/-- A PDU with a readable header goes to the second half of `handle_data_pdu`. -/
theorem umHandleDataPdu_of_read {payload buf : Bytes} {header : UmdPduHeader}
    (hread : Um.readDataPduHeader st.rxSnFieldLength payload = some (header, buf)) :
    Um.handleDataPdu st payload = some (Um.receivePdu st header buf) ∧
      Um.copiedByWritePdu st payload = Um.copiedByPdu st header buf := by
  rw [Um.handleDataPdu, Um.copiedByWritePdu, hread]
  exact ⟨rfl, rfl⟩

/-- A call of `write_pdu` is contained exactly when the PDU is harmless, if every waiting PDU has
its data. -/
theorem umContained_iff (hst : UmAllFit st) {payload : Bytes} (hne : payload ≠ []) :
    UmContained st payload ↔ UmHarmless st payload := by
  constructor
  · intro h
    refine ⟨?_, fun header buf hread => ?_⟩
    · obtain ⟨mem, hmem⟩ := exists_extends payload
      exact (umHeaderInside_iff _ hne hmem).mp (h.inside mem hmem)
    · by_cases hfits : header.li.sum ≤ buf.length
      · exact .inl hfits
      · obtain ⟨hwrite, hcopies⟩ := umHandleDataPdu_of_read hread
        have hsame := h.dropped header buf hread (by omega)
        have hcopied := h.copied
        rw [hwrite] at hsame
        rw [hcopies] at hcopied
        exact .inr (umGivesUp_of_unchanged (Option.some.inj hsame)
          fun hmem => hfits (hcopied _ hmem))
  · intro h
    obtain ⟨⟨header, buf⟩, hread⟩ := Option.isSome_iff_exists.mp h.complete
    obtain ⟨hwrite, hcopies⟩ := umHandleDataPdu_of_read hread
    refine ⟨fun mem hmem => (umHeaderInside_iff _ hne hmem).mpr h.complete, ?_, ?_⟩
    · rw [hcopies]
      rcases h.fits header buf hread with hfits | hup
      · exact (umAllFit_receivePdu hst hfits).2
      · rw [(hup.result buf).2]
        exact nofun
    · intro header' buf' hread' hlong
      have hup := (h.fits header' buf' hread').resolve_left (by omega)
      rw [(umHandleDataPdu_of_read hread').1, (hup.result buf').1]

/-! ### Unacknowledged mode: runs -/

/-- What is asked of a call. The timer has PDUs copied as well. -/
def UmCallContained (st : Um.RlcUmRx) : UmEntityCall → Prop
  | .writePdu payload => payload ≠ [] → UmContained st payload
  | .timerStep => ∀ pdu ∈ Um.copiedByTimerStep st, UmdFits pdu
  | _ => True

def UmCallHarmless (st : Um.RlcUmRx) : UmEntityCall → Prop
  | .writePdu payload => payload ≠ [] → UmHarmless st payload
  | _ => True

/-- The same for any call of the entity, the timer included. -/
theorem umCallContained_iff (hst : UmAllFit st) (c : UmEntityCall) :
    UmCallContained st c ↔ UmCallHarmless st c := by
  cases c with
  | writePdu payload => exact forall_congr' fun hne => umContained_iff hst hne
  | timerStep =>
    refine iff_of_true (fun pdu hmem => ?_) trivial
    obtain ⟨sn, hsn⟩ := (takes_timerStep st).taken pdu hmem
    exact hst sn pdu hsn
  | _ => exact Iff.rfl

/-- Every harmless call keeps the condition. -/
theorem umAllFit_step {c : UmEntityCall} (hst : UmAllFit st) (h : UmCallHarmless st c)
    (hstep : umRxResult st c = some st') : UmAllFit st' := by
  cases c with
  | writePdu payload =>
    obtain ⟨⟨header, buf⟩, hread, heq⟩ := Option.bind_eq_some_iff.mp hstep
    obtain rfl := Option.some.inj heq
    have hne : payload ≠ [] := by
      rintro rfl
      cases hsn : st.rxSnFieldLength <;> rw [hsn] at hread <;> cases hread
    rcases (h hne).fits header buf hread with hfits | hup
    · exact (umAllFit_receivePdu hst hfits).1
    · show UmAllFit (Um.receivePdu st header buf)
      rw [(hup.result buf).1]
      exact hst
  | timerStep =>
    obtain rfl := Option.some.inj hstep
    exact fun sn pdu hsn => hst sn pdu ((takes_timerStep st).left sn pdu hsn)
  | reset =>
    obtain rfl := Option.some.inj hstep
    exact nofun
  | _ =>
    obtain rfl := Option.some.inj hstep
    exact hst

end

/-! ### Both entities -/

/-- Every PDU that an entity is given in a run is contained, exactly when every PDU is complete and
each one that lacks data is ignored for its sequence number. -/
theorem malformed_contained_iff (L : SrslteBit) :
    (∀ (cnfg : AmConfig) (calls : List AmCall),
      Throughout (amStep L) (AmCallContained L) (configure {} cnfg) calls ↔
        Throughout (amStep L) (AmCallHarmless L) (configure {} cnfg) calls) ∧
    (∀ (snSize : UmdSnSize) (t : Nat) (calls : List UmEntityCall),
      Throughout umRxResult UmCallContained (Um.configureRx snSize t) calls ↔
        Throughout umRxResult UmCallHarmless (Um.configureRx snSize t) calls) := by
  constructor
  · intro cnfg calls
    exact throughout_iff (I := AmAllFit) (fun _ c hst => amCallContained_iff hst c)
      (fun _ _ _ hst h hstep => amAllFit_step hst h hstep) calls (amAllFit_configure cnfg)
  · intro snSize t calls
    exact throughout_iff (I := UmAllFit) (fun _ c hst => umCallContained_iff hst c)
      (fun _ _ _ hst h hstep => umAllFit_step hst h hstep) calls nofun

/-- A PDU with one byte of data, whose length indicator names 160. -/
def shortOfData : Bytes := [0x84, 0x00, 0x0A, 0x00, 0x41]

/-- A data PDU that is cut off after its first byte is read past its end, and 160 bytes are copied
from a PDU that has one. -/
theorem not_contained_cutOff :
    ¬AmContained msbFirst (configure {} {}) 0 [0x80] ∧
      ¬AmContained msbFirst (configure {} {}) 0 shortOfData := by
  constructor
  · rw [amContained_iff (amAllFit_configure {}) 0 (by decide)]
    intro h
    exact absurd h.complete (show ¬(false = true) from Bool.false_ne_true)
  · intro h
    have hcopied : copiedByWritePdu (configure {} {}) shortOfData
        = [{ header := { dc := .dataPdu, li := [160] }, buf := [0x41] }] := by
      decide
    have hfits := h.copied _ (by rw [hcopied]; exact List.mem_singleton_self _)
    exact absurd hfits (show ¬160 ≤ 1 by decide)

end SrsUE.Proofs.Rlc
