import SrsUE.Lib.Framing
import SrsUE.Proofs.Rlc.UmWindow

/-!
# `SrsUE.Proofs.Rlc.UmAssembly`: what `rlc_um` delivers of one PDU

A PDU is a piece of the stream of bytes and SDU ends (`umTokens`). Reading it behind `rx_sdu`
gives the SDUs that end in it, `closed` below, and the bytes left open.

* `umReassemblePdu_spec`: the bytes left open are always in `rx_sdu` afterwards. Either all of
  `closed` is delivered, or the first of these SDUs is not and some of the others are. Which it
  is depends on `pdu_lost`, the alignment, and on whether the PDU follows the one that
  `vr_ur_in_rx_sdu` names (`UmKeepsFirst`).
-/

set_option autoImplicit false

namespace SrsUE.Proofs.Rlc

open SrsUE.Lib
open SrsUE.Rlc (Bytes FiField UmdSnSize UmdPduHeader)
open SrsUE.Rlc.Um

/-- The stream of bytes and SDU ends in a PDU. -/
def umTokens (pdu : UmdPdu) : List (Token UInt8) :=
  frame pdu.header.li pdu.buf ++ (if endAligned pdu.header.fi then [none] else [])

/-- The PDU follows the one whose last segment went to `rx_sdu` last. -/
def UmFollows (st : RlcUmRx) : Prop := st.vrUr = (st.vrUrInRxSdu + 1) % st.rxMod

/-- The first SDU that ends in the PDU is delivered: it ends at the end of the PDU or the PDU
follows the one before, and it is not the remainder of a lost PDU. -/
def UmKeepsFirst (st : RlcUmRx) (pdu : UmdPdu) : Prop :=
  (pdu.header.li = [] ∨ UmFollows st) ∧
    ¬(st.pduLost = true ∧ startAligned pdu.header.fi = false)

section
variable {st : RlcUmRx}

/-- The SDU is handed over or dropped, and `rx_sdu` is empty again. -/
theorem finishSdu_eq (st : RlcUmRx) (drop : Bool) :
    st.finishSdu drop = { st with
      rxSdu := [], pduLost := false, pdcp := st.pdcp ++ if drop then [] else [st.rxSdu] } := by
  cases drop
  · rfl
  · simp [RlcUmRx.finishSdu]

/-- The loop over the length indicators. The data it leaves is still to be put behind
`rx_sdu`. -/
theorem umReassembleLis_spec (fi : FiField) (lis : List Nat) (buf : Bytes) (st : RlcUmRx) :
    ∃ rxSdu out rest, reassembleLis fi lis buf st
        = ({ st with rxSdu := rxSdu, pduLost := st.pduLost && lis.isEmpty
                     pdcp := st.pdcp ++ out }, rest) ∧
      rxSdu ++ rest = (deframe st.rxSdu (frame lis buf)).2 ∧
      (UmFollows st → ¬(st.pduLost = true ∧ startAligned fi = false) →
        out = (deframe st.rxSdu (frame lis buf)).1) ∧
      (¬UmFollows st ∨ st.pduLost = true ∧ startAligned fi = false →
        out.Sublist (deframe st.rxSdu (frame lis buf)).1.tail) := by
  induction lis generalizing buf st with
  | nil =>
    have hnone : (deframe st.rxSdu (frame [] buf)).1 = [] := by
      rw [frame_nil, deframe_data]
    refine ⟨st.rxSdu, [], buf, by simp [reassembleLis], ?_, ?_, ?_⟩
    · rw [frame_nil, deframe_data]
    · intro _ _
      rw [hnone]
    · intro _
      exact List.nil_sublist _
  | cons len lis ih =>
    rw [frame, deframe_data_append, deframe]
    -- The first piece is finished, and the rest goes on with an empty `rx_sdu`.
    generalize hdrop : (st.pduLost && !startAligned fi
      || decide (st.vrUr ≠ (st.vrUrInRxSdu + 1) % st.rxMod)) = drop
    obtain ⟨rxSdu, out, rest, heq, hopen, hall, hsome⟩ :=
      ih (buf.drop len) ({ st with rxSdu := st.rxSdu ++ buf.take len }.finishSdu drop)
    rw [finishSdu_eq] at heq hopen hall hsome
    refine ⟨rxSdu, (if drop then [] else [st.rxSdu ++ buf.take len]) ++ out, rest, ?_, hopen,
      ?_, ?_⟩
    · rw [reassembleLis]
      simp only [hdrop, finishSdu_eq]
      rw [heq]
      simp
    · intro hf hl
      -- `drop` is one test for the whole loop: `vr_ur` and the framing bits do not change in it.
      have hkeep : drop = false := by
        rw [← hdrop]
        simp only [UmFollows] at hf
        simpa [← hf] using hl
      rw [hkeep, hall hf (by simp)]
      rfl
    · intro hbad
      have hdropped : drop = true := by
        rw [← hdrop]
        rcases hbad with hf | ⟨h1, h2⟩
        · simp only [UmFollows] at hf
          simp [hf]
        · simp [h1, h2]
      rw [hdropped, if_pos rfl, List.nil_append, List.tail_cons]
      by_cases hf : UmFollows st
      · simp only [hall hf (by simp), List.Sublist.refl]
      · exact (hsome (.inl hf)).trans (List.tail_sublist _)

/-- One PDU: what is open goes to `rx_sdu`, and of the SDUs that end in it either all are
delivered or some but not the first. -/
theorem umReassemblePdu_spec (st : RlcUmRx) (pdu : UmdPdu) :
    ∃ out, reassemblePdu st pdu = { st with
        rxSdu := (deframe st.rxSdu (umTokens pdu)).2
        vrUrInRxSdu := st.vrUr
        pduLost := st.pduLost && (deframe st.rxSdu (umTokens pdu)).1.isEmpty
        pdcp := st.pdcp ++ out
        rxWindow := st.rxWindow.erase st.vrUr } ∧
      (UmKeepsFirst st pdu → out = (deframe st.rxSdu (umTokens pdu)).1) ∧
      (¬UmKeepsFirst st pdu → out.Sublist (deframe st.rxSdu (umTokens pdu)).1.tail) := by
  obtain ⟨header, buf⟩ := pdu
  obtain ⟨rxSdu, out, rest, heq, hopen, hall, hsome⟩ :=
    umReassembleLis_spec header.fi header.li buf st
  -- An SDU ends inside of the PDU exactly when there is a length indicator.
  have hnil : (deframe st.rxSdu (frame header.li buf)).1 = [] ↔ header.li = [] := by
    rw [← List.length_eq_zero_iff, length_deframe_frame, List.length_eq_zero_iff]
  have hempty : (deframe st.rxSdu (frame header.li buf)).1.isEmpty = header.li.isEmpty := by
    rw [Bool.eq_iff_iff, List.isEmpty_iff, List.isEmpty_iff, hnil]
  have hkeep : UmKeepsFirst st ⟨header, buf⟩ → out
      = (deframe st.rxSdu (frame header.li buf)).1 := by
    rintro ⟨hli | hf, hl⟩
    · rw [hnil.mpr hli]
      have hpdcp := congrArg (fun p : RlcUmRx × Bytes => p.1.pdcp) heq
      rw [show header.li = [] from hli] at hpdcp
      simpa [reassembleLis] using hpdcp
    · exact hall hf hl
  have hlose : ¬UmKeepsFirst st ⟨header, buf⟩ →
      out.Sublist (deframe st.rxSdu (frame header.li buf)).1.tail := by
    intro hk
    by_cases hl : st.pduLost = true ∧ startAligned header.fi = false
    · exact hsome (.inr hl)
    · exact hsome (.inl fun hf => hk ⟨.inr hf, hl⟩)
  unfold reassemblePdu reassembleLast umTokens
  simp only [heq, hopen]
  cases hend : endAligned header.fi with
  | false =>
    simp only [Bool.false_eq_true, if_false, List.append_nil]
    exact ⟨out, by rw [hempty], hkeep, hlose⟩
  | true =>
    -- The end of the PDU ends one more SDU, the one that the loop left open.
    have hclosed : deframe st.rxSdu (frame header.li buf ++ [none])
        = ((deframe st.rxSdu (frame header.li buf)).1
            ++ [(deframe st.rxSdu (frame header.li buf)).2], []) := by
      rw [deframe_append]
      rfl
    simp only [if_true, finishSdu_eq, hclosed]
    refine ⟨out ++ (if st.pduLost && header.li.isEmpty && !startAligned header.fi then []
      else [(deframe st.rxSdu (frame header.li buf)).2]), by simp, ?_, ?_⟩
    · intro hk
      have hlast : ¬(st.pduLost && header.li.isEmpty && !startAligned header.fi) = true := by
        intro hc
        simp only [Bool.and_eq_true, Bool.not_eq_true'] at hc
        exact hk.2 ⟨hc.1.1, hc.2⟩
      rw [if_neg hlast, hkeep hk]
    · intro hk
      by_cases hli : header.li = []
      · -- The only segment is dropped.
        have hl : st.pduLost = true ∧ startAligned header.fi = false := by
          by_contra hl
          exact hk ⟨.inl hli, hl⟩
        have hout := hlose hk
        rw [hnil.mpr hli] at hout ⊢
        rw [hli, hl.1, hl.2, List.eq_nil_of_sublist_nil hout]
        exact List.nil_sublist _
      · -- The first segment is dropped, and the last one is not.
        have hne : header.li.isEmpty = false := by simpa using hli
        rw [hne, Bool.and_false, Bool.false_and, if_neg Bool.false_ne_true,
          List.tail_append_of_ne_nil (fun h0 => hli (hnil.mp h0))]
        exact (hlose hk).append (List.Sublist.refl _)

end

end SrsUE.Proofs.Rlc
