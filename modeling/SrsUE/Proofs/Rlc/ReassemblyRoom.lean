import SrsUE.Proofs.Rlc.AmReceive
import SrsUE.Rlc.BufferRoom

/-!
# `SrsUE.Proofs.Rlc.ReassemblyRoom`: how far reassembly writes

The copies to `rx_sdu` follow the pieces into which the stream of the PDUs is cut: they stay in the
buffer exactly when each SDU, and the tail that is left, fits there.

* `pieceCopies_inRoom_iff`: one PDU, in both modes.
* `reassembleCopies_inRoom_iff`: the loop of acknowledged mode from `vr_r` up to the first index
  that is missing.
* `handleDataPduCopies_inRoom_iff`: one received PDU. A PDU that is discarded is copied nowhere
  (`handleDataPduCopies_known`).
-/

set_option autoImplicit false

namespace SrsUE.Proofs.Rlc

open SrsUE.Lib
open SrsUE.Rlc

/-- The copies of one PDU to `rx_sdu` are the pieces of its data. -/
theorem pieceCopies_inRoom_iff (lis : List Nat) (buf rxSdu : Bytes) (hli : lis.sum ≤ buf.length) :
    InRoom (pieceCopies lis buf.length rxSdu.length)
      ↔ PiecesWithin msgRoom rxSdu (frame lis buf) := by
  induction lis generalizing buf rxSdu with
  | nil => simp [pieceCopies, InRoom, PiecesWithin, deframe_data]
  | cons l lis ih =>
    rw [List.sum_cons] at hli
    have hl : l ≤ buf.length := by omega
    have hrest : sub32 buf.length l = (buf.drop l).length := by
      rw [sub32, if_pos hl, List.length_drop]
    have hpiece : (rxSdu ++ buf.take l).length = rxSdu.length + l := by
      rw [List.length_append, List.length_take_of_le hl]
    rw [pieceCopies, inRoom_cons, piecesWithin_frame_cons, hpiece, hrest]
    exact and_congr_right fun _ => ih (buf.drop l) [] (by rw [List.length_drop]; omega)

/-- An SDU that ends with its PDU takes no other copy. -/
theorem pieceCopies_inRoom_iff_pduTokens (pdu : AmdRxPdu) (rxSdu : Bytes)
    (hli : pdu.header.li.sum ≤ pdu.buf.length) :
    InRoom (pieceCopies pdu.header.li pdu.buf.length rxSdu.length)
      ↔ PiecesWithin msgRoom rxSdu (pduTokens pdu) := by
  rw [pieceCopies_inRoom_iff _ _ _ hli]
  unfold pduTokens
  split
  · exact (piecesWithin_end _).symm
  · rw [List.append_nil]

/-- A PDU that fits behind what is held copies no piece over the end. -/
theorem pieceCopies_inRoom_of_le (lis : List Nat) {nBytes held : Nat} (hli : lis.sum ≤ nBytes)
    (hle : held + nBytes ≤ msgRoom) : InRoom (pieceCopies lis nBytes held) := by
  induction lis generalizing nBytes held with
  | nil => exact (inRoom_cons _ _).mpr ⟨hle, nofun⟩
  | cons l lis ih =>
    rw [List.sum_cons] at hli
    have hl : l ≤ nBytes := by omega
    rw [pieceCopies, inRoom_cons, sub32, if_pos hl]
    exact ⟨by omega, ih (by omega) (by omega)⟩

/-- A PDU that fits the buffer copies over its end with its first piece only, which goes behind what
is held. -/
theorem pieceCopies_inRoom_iff_first (lis : List Nat) {nBytes : Nat} (held : Nat)
    (hli : lis.sum ≤ nBytes) (hroom : nBytes ≤ msgRoom) :
    InRoom (pieceCopies lis nBytes held) ↔ held + lis.headD nBytes ≤ msgRoom := by
  cases lis with
  | nil => exact (inRoom_cons _ _).trans (and_iff_left nofun)
  | cons l lis =>
    rw [List.sum_cons] at hli
    have hl : l ≤ nBytes := by omega
    rw [pieceCopies, inRoom_cons, List.headD_cons, sub32, if_pos hl]
    exact and_iff_left (pieceCopies_inRoom_of_le lis (by omega) (by omega))

section
variable {st : RlcAm} {r ms h : Nat} {recv : Nat → Prop} {Q : Nat → AmdRxPdu → Prop}
  {T : Nat → List (Token UInt8)}

/-- The loop of `reassemble_rx_sdus` copies the pieces of the PDUs from `r` up to the first missing
index `r'`. -/
theorem reassembleCopies_inRoom_iff
    (hT : ∀ i pdu, Q i pdu → pduTokens pdu = T i ∧ pdu.header.li.sum ≤ pdu.buf.length) {r' : Nat}
    (hmiss : ¬recv r') :
    ∀ (rounds : Nat) {st : RlcAm} {r : Nat}, RxWindow st r recv Q → r ≤ r' → r' < r + 512 + 1 →
      (∀ i, r ≤ i → i < r' → recv i) → r' - r < rounds →
      (st.rxSdu.getD []).length ≤ msgRoom →
      (InRoom (reassembleCopies rounds st)
        ↔ PiecesWithin msgRoom (st.rxSdu.getD []) ((List.range' r (r' - r)).flatMap T)) := by
  intro rounds
  induction rounds with
  | zero => intro st r _ _ _ _ hlt; omega
  | succ rounds ih =>
    intro st r w hrr' hbound hall hlt hheld
    rcases Nat.eq_or_lt_of_le hrr' with rfl | hlt'
    · -- Nothing is copied, and the stream is empty.
      have hnone : st.rxWindow st.vrR = none := by
        rw [w.vrR]
        exact w.absent r (Nat.le_refl _) (by omega) hmiss
      rw [reassembleCopies, hnone, Nat.sub_self]
      exact ⟨fun _ => ⟨nofun, hheld⟩, fun _ => nofun⟩
    · have hr := hall r (Nat.le_refl _) hlt'
      obtain ⟨pdu, hpdu, hq⟩ := w.present r (Nat.le_refl _) hr
      obtain ⟨htoks, hli⟩ := hT r pdu hq
      have hcons : (List.range' r (r' - r)).flatMap T
          = T r ++ (List.range' (r + 1) (r' - (r + 1))).flatMap T := by
        rw [show r' - r = (r' - (r + 1)) + 1 by omega, List.range'_succ, List.flatMap_cons]
      have hsdu : ((reassemblePdu st pdu).rxSdu.getD [])
          = (deframe (st.rxSdu.getD []) (T r)).2 := htoks ▸ (reassemblePdu_delivers st pdu).2
      rw [reassembleCopies, w.vrR, hpdu, hcons, piecesWithin_append]
      simp only
      rw [inRoom_append, pieceCopies_inRoom_iff_pduTokens pdu _ hli, htoks]
      refine and_congr_right fun hpieces => ?_
      -- The rest of this PDU is in `rx_sdu` when the loop goes on.
      rw [ih (reassemblePdu_window w hr pdu) hlt' (by omega) (fun i h1 h2 => hall i (by omega) h2)
        (by omega) (hsdu ▸ hpieces.2), hsdu]

/-- A PDU that was received before is copied nowhere. -/
theorem handleDataPduCopies_known (inv : RxInv st r ms h recv Q) {i : Nat} (hlo : r ≤ i + 512)
    (hi : i < r + 512) (hrecv : recv i) {payload : Bytes} {header : AmdPduHeader}
    (hsn : header.sn = i % 1024) : handleDataPduCopies st payload header = [] := by
  rw [handleDataPduCopies, hsn]
  by_cases hri : r ≤ i
  · rw [(insideRxWindow_iff inv.toRxWindow hlo hi).mpr hri,
      if_pos ((inv.isSome_iff hri (by omega)).mpr hrecv)]
    rfl
  · have hout : insideRxWindow st (i % 1024) = false := by
      rw [← Bool.not_eq_true, insideRxWindow_iff inv.toRxWindow hlo hi]
      exact hri
    rw [hout]
    rfl

/-- A new PDU is copied, and with it the pieces up to the index `r'` that is missing then. -/
theorem handleDataPduCopies_inRoom_iff (inv : RxInv st r ms h recv Q)
    (hT : ∀ i pdu, Q i pdu → pduTokens pdu = T i ∧ pdu.header.li.sum ≤ pdu.buf.length) {i : Nat}
    (hi : i < r + 512) (hrecv : ¬recv i) {payload : Bytes} {header : AmdPduHeader}
    (hsn : header.sn = i % 1024) (hq : Q i { header := header, buf := payload })
    (hheld : (st.rxSdu.getD []).length ≤ msgRoom) :
    ∃ r', r ≤ r' ∧ ¬(recv r' ∨ r' = i) ∧ (∀ j, r ≤ j → j < r' → recv j ∨ j = i) ∧
      (InRoom (handleDataPduCopies st payload header) ↔ payload.length ≤ msgRoom ∧
        PiecesWithin msgRoom (st.rxSdu.getD []) ((List.range' r (r' - r)).flatMap T)) := by
  have hri : r ≤ i := by
    by_contra hlt
    exact hrecv (inv.below i (Nat.lt_of_not_le hlt))
  have hin : insideRxWindow st header.sn = true := by
    rw [hsn]
    exact (insideRxWindow_iff inv.toRxWindow (by omega) hi).mpr hri
  have hnone : st.rxWindow header.sn = none := by
    rw [hsn]
    exact inv.absent i hri (by omega) hrecv
  -- The PDU is stored first, and the loop then starts from the new window.
  obtain ⟨ms', p, d, hstore, w, -, -, -, -⟩ := storeDataPdu_spec inv hri hi hsn hq
  have hlt : ∀ j, recv j ∨ j = i → j < max h (i + 1) := by
    rintro j (hj | rfl)
    · have := inv.recv_lt j hj
      omega
    · omega
  have hrms := inv.r_le_ms
  have hmsh := inv.ms_le_h
  have hhle := inv.h_le
  obtain ⟨r', hrr', hr'h, hmiss, hall, -⟩ :=
    reassembleLoop_window hlt 1024 w (by omega) (by omega)
  have hsdu : (storeDataPdu st payload header).rxSdu = st.rxSdu := by rw [hstore]
  refine ⟨r', hrr', hmiss, hall, ?_⟩
  rw [handleDataPduCopies, hin, hnone]
  have hloop := reassembleCopies_inRoom_iff hT hmiss 1024 w hrr' (by omega) hall (by omega)
    (hsdu ▸ hheld)
  rw [hsdu] at hloop
  exact (inRoom_cons _ _).trans (and_congr_right fun _ => hloop)

end

end SrsUE.Proofs.Rlc
