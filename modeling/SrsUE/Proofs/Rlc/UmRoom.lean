import SrsUE.Proofs.Rlc.AmDataHeader
import SrsUE.Proofs.Rlc.ReassemblyRoom
import SrsUE.Proofs.Rlc.UmAssembly

/-!
# `SrsUE.Proofs.Rlc.UmRoom`: how far the rounds of `vr_ur` write

The loops of `rlc_um` are rounds in which `vr_ur` passes one SN (`UmWindow`). Here their copies to
`rx_sdu` are those of the rounds, one after the other: `reassembleRxSdusCopies_eq` after an arrival,
and `skipMissingCopies_eq` after an expiry of the timer. The data of a PDU is a part of its bytes
(`umParseDataPduHeader_suffix`), so it fits where the PDU does.
-/

set_option autoImplicit false

namespace SrsUE.Proofs.Rlc

open SrsUE.Lib
open SrsUE.Rlc (Bytes UmdPduHeader UmdSnSize readLis)
open SrsUE.Rlc.Um

/-! ### The data of a PDU -/

/-- What is behind the extension part is the end of the bytes. -/
theorem readLis_suffix {bytes rest : Bytes} {lis : List Nat}
    (h : readLis bytes = some (lis, rest)) : rest <:+ bytes := by
  -- The reader takes two length indicators at a time, and so does the induction.
  induction bytes using SrsUE.Rlc.readLis.induct generalizing lis with
  | case1 b0 b1 tail h0 =>
    rw [readLis_one tail h0] at h
    obtain ⟨-, rfl⟩ := Prod.mk.inj (Option.some.inj h)
    exact ⟨[b0, b1], rfl⟩
  | case2 b0 b1 h0 b2 tail h1 =>
    rw [readLis_two tail h0, if_pos h1] at h
    obtain ⟨-, rfl⟩ := Prod.mk.inj (Option.some.inj h)
    exact ⟨[b0, b1, b2], rfl⟩
  | case3 b0 b1 h0 b2 tail h1 ih =>
    rw [readLis_two tail h0, if_neg h1] at h
    obtain ⟨⟨lis', rest'⟩, hread, heq⟩ := Option.map_eq_some_iff.mp h
    obtain ⟨-, rfl⟩ := Prod.mk.inj heq
    exact (ih hread).trans ⟨[b0, b1, b2], rfl⟩
  | case4 b0 b1 h0 =>
    simp only [readLis, if_neg h0] at h
    cases h
  | case5 l hshort =>
    rcases l with _ | ⟨b0, _ | ⟨b1, tail⟩⟩
    · cases h
    · cases h
    · exact absurd rfl (hshort b0 b1 tail)

/-- The data of a PDU is the end of its bytes. -/
theorem umParseDataPduHeader_suffix {snSize : UmdSnSize} {payload data : Bytes}
    {header : UmdPduHeader} (h : parseDataPduHeader snSize payload = some (header, data)) :
    data <:+ payload := by
  obtain ⟨⟨ext, fixed, rest⟩, hfixed, hrest⟩ := Option.bind_eq_some_iff.mp h
  have hsuffix : rest <:+ payload := by
    match snSize, payload, hfixed with
    | .size5Bits, b0 :: _, hfixed =>
      obtain ⟨-, -, rfl⟩ := by simpa [readFixedPart] using hfixed
      exact List.suffix_cons b0 _
    | .size10Bits, b0 :: b1 :: _, hfixed =>
      obtain ⟨-, -, rfl⟩ := by simpa [readFixedPart] using hfixed
      exact ⟨[b0, b1], rfl⟩
  simp only at hrest
  split at hrest
  · obtain ⟨-, rfl⟩ := Prod.mk.inj (Option.some.inj hrest)
    exact hsuffix
  · obtain ⟨⟨li, rest'⟩, hlis, hli⟩ := Option.bind_eq_some_iff.mp hrest
    obtain ⟨-, rfl⟩ := Prod.mk.inj (Option.some.inj hli)
    exact (readLis_suffix hlis).trans hsuffix

/-! ### The rounds -/

/-- The copies of `n` rounds. -/
def roundsCopies (reset : Bool) : Nat → RlcUmRx → List Nat
  | 0, _ => []
  | n + 1, st => roundCopies st ++ roundsCopies reset n (passRound reset st)

/-- The copies of some rounds, and of further ones. -/
theorem roundsCopies_add (reset : Bool) (m n : Nat) (st : RlcUmRx) :
    roundsCopies reset (m + n) st
      = roundsCopies reset m st ++ roundsCopies reset n ((passRound reset)^[m] st) := by
  induction m generalizing st with
  | zero => rw [Nat.zero_add]; rfl
  | succ m ih =>
    rw [Nat.succ_add, roundsCopies, roundsCopies, ih, List.append_assoc,
      Function.iterate_succ_apply]

section
variable {W r h : Nat} {st : RlcUmRx} {Q : Nat → UmdPdu → Prop}

/-- Over PDUs that all wait it does not matter what a missing one does. -/
theorem UmWindow.roundsCopies_of_waiting (w : UmWindow W st r h Q) (reset reset' : Bool) {n : Nat}
    (hn : r + n ≤ h) (hall : ∀ j, r ≤ j → j < r + n → UmWaiting st j) :
    roundsCopies reset n st = roundsCopies reset' n st := by
  induction n with
  | zero => rfl
  | succ n ih =>
    have hwaiting : ∀ j, r ≤ j → j < r + n → UmWaiting st j := fun j hj hj' => hall j hj (by omega)
    rw [roundsCopies_add, roundsCopies_add, ih (by omega) hwaiting,
      w.iterate_of_waiting reset reset' (by omega) hwaiting]
    rfl

/-- The first loop of `reassemble_rx_sdus`. -/
theorem umCatchUpCopies_eq (rounds : Nat) : ∀ {r : Nat} {st : RlcUmRx}, UmWindow W st r h Q →
    r < h → h ≤ r + W + rounds → catchUpCopies rounds st = roundsCopies true (h - W - r) st := by
  induction rounds with
  | zero =>
    intro r st w hlt hle
    rw [show h - W - r = 0 by omega]
    rfl
  | succ rounds ih =>
    intro r st w hlt hle
    have hW := w.cases
    have hin := umInside_index w.toUmScale w.r_le w.h_le
    rw [← w.vrUr] at hin
    rw [catchUpCopies]
    by_cases hedge : h ≤ r + W
    · rw [if_pos (hin.mpr ⟨hlt, hedge⟩), show h - W - r = 0 by omega]
      rfl
    · have hout : ¬st.insideReorderingWindow st.vrUr = true := fun hi => hedge (hin.mp hi).2
      rw [if_neg hout, show h - W - r = h - W - (r + 1) + 1 by omega, roundsCopies]
      exact congrArg _ (ih (w.pass hlt true) (by omega) (by omega))

/-- The second loop makes `n` rounds when the first PDU that is missing is the one after these. -/
theorem umUpdateVrUrCopies_eq (reset : Bool) (rounds : Nat) :
    ∀ {r n : Nat} {st : RlcUmRx}, UmWindow W st r h Q → n ≤ rounds → r + n ≤ h →
      h ≤ r + W → (∀ j, r ≤ j → j < r + n → UmWaiting st j) → ¬UmWaiting st (r + n) →
      updateVrUrCopies rounds st = roundsCopies reset n st := by
  induction rounds with
  | zero =>
    intro r n st w hle _ _ _ _
    rw [Nat.le_zero.mp hle]
    rfl
  | succ rounds ih =>
    intro r n st w hle hn hedge hall hmiss
    have hW := w.cases
    cases hpdu : st.rxWindow st.vrUr with
    | none =>
      have hno : ¬UmWaiting st r := by
        rw [w.waiting_iff, ← w.vrUr, hpdu]
        exact Bool.false_ne_true
      have hzero : n = 0 := by
        by_contra hne
        exact hno (hall r (Nat.le_refl r) (by omega))
      rw [hzero, updateVrUrCopies, hpdu]
      rfl
    | some pdu =>
      have hwait : UmWaiting st r := by
        rw [w.waiting_iff, ← w.vrUr, hpdu]
        rfl
      obtain ⟨m, rfl⟩ : ∃ m, n = m + 1 := by
        refine ⟨n - 1, (Nat.succ_pred_eq_of_ne_zero ?_).symm⟩
        rintro rfl
        exact hmiss hwait
      -- A round removes only the PDU at `vr_ur`, so the ones behind it still wait.
      have hother : ∀ j, r < j → j ≤ h → (UmWaiting (passRound reset st) j ↔ UmWaiting st j) :=
        fun j hj hjh => w.waiting_passRound reset hj (by omega)
      rw [updateVrUrCopies, hpdu, roundsCopies, passRound_of_some hpdu]
      simp only
      refine congrArg _ ?_
      rw [← passRound_of_some hpdu reset]
      refine ih (w.pass (by omega) reset) (by omega) (by omega) (by omega) (fun j hj hj' => ?_) ?_
      · exact (hother j (by omega) (by omega)).mpr (hall j (by omega) (by omega))
      · rw [show r + 1 + m = r + (m + 1) by omega]
        exact fun hw => hmiss ((hother _ (by omega) hn).mp hw)

/-- `reassemble_rx_sdus` makes `n` rounds: up to the lower edge of the window, and over the PDUs
that wait behind it. -/
theorem reassembleRxSdusCopies_eq (w : UmWindow W st r h Q) (hlt : r < h) {n : Nat}
    (hedge : h ≤ r + n + W) (hn : r + n ≤ h)
    (hall : ∀ j, r ≤ j → h ≤ j + W → j < r + n → UmWaiting st j)
    (hmiss : ¬UmWaiting ((passRound true)^[n] st) (r + n)) :
    reassembleRxSdusCopies st = roundsCopies true n st := by
  have hW := w.cases
  have hle := w.h_le
  obtain ⟨m, rfl⟩ : ∃ m, n = h - W - r + m := ⟨n - (h - W - r), by omega⟩
  have hfirst : r + (h - W - r) ≤ h := by omega
  have hrounds : m ≤ 2 * W := by omega
  have wc := w.iterate true hfirst
  have hmod : ((passRound true)^[h - W - r] st).rxMod = st.rxMod := by rw [wc.rxMod, w.rxMod]
  have hcatch := umCatchUp_eq st.rxMod w hlt (by rw [w.rxMod]; omega)
  have hcopies := umCatchUpCopies_eq st.rxMod w hlt (by rw [w.rxMod]; omega)
  have hupdate : updateVrUrCopies st.rxMod ((passRound true)^[h - W - r] st)
      = roundsCopies true m ((passRound true)^[h - W - r] st) := by
    refine umUpdateVrUrCopies_eq true st.rxMod wc (by rw [w.rxMod]; exact hrounds) (by omega)
      (by omega) (fun j hj hj' => ?_) ?_
    · exact (w.waiting_iterate true hfirst hj (by omega)).mpr
        (hall j (by omega) (by omega) (by omega))
    · rw [← Nat.add_assoc, Nat.add_comm (h - W - r) m, Function.iterate_add_apply] at hmiss
      exact fun hw => hmiss ((wc.waiting_iterate true (by omega) (by omega) (by omega)).mpr hw)
  rw [reassembleRxSdusCopies, hcatch, hcopies, hupdate, roundsCopies_add]

/-- The loop of `timer_expired` makes `n` rounds: up to `vr_ux`, and over the PDUs that wait behind
it. -/
theorem skipMissingCopies_eq {x : Nat} (rounds : Nat) :
    ∀ {r n : Nat} {st : RlcUmRx}, UmExpiring W st r h x Q → x ≤ r + rounds → x ≤ r + n →
      r + n ≤ h → (∀ j, x ≤ j → r ≤ j → j < r + n → UmWaiting st j) → ¬UmWaiting st (r + n) →
      skipMissingCopies rounds st = roundsCopies false n st := by
  induction rounds with
  | zero =>
    intro r n st e hx hxn hn hall hmiss
    have hzero : n = 0 := by
      by_contra hne
      exact e.missing (hall r hx (Nat.le_refl r) (by omega))
    rw [hzero]
    rfl
  | succ rounds ih =>
    intro r n st e hx hxn hn hall hmiss
    have hW := e.cases
    have hedge := e.edge
    by_cases hlt : r < x
    · obtain ⟨w, hrh, m, e', hre, hwait, hother⟩ := e.round hlt
      have hm := e'.r_le
      -- The first PDU that is missing from `vr_ux` on is behind those of this round.
      have hle : m + 1 ≤ n := by
        by_contra hgt
        exact hmiss (hwait (r + n) (by omega) (by omega))
      obtain ⟨k, rfl⟩ : ∃ k, n = m + 1 + k := ⟨n - (m + 1), by omega⟩
      have hnone : st.rxWindow st.vrUr = none := by
        have hno := e.missing
        rw [e.waiting_iff, ← e.vrUr] at hno
        simpa using hno
      have hpass := passRound_of_none hnone
      have hadvance : ∀ j, r < j → j < r + 1 + m → UmWaiting st.advance j := by
        intro j hj hj'
        rw [← hpass]
        exact (e.waiting_passRound false hj (by omega)).mpr (hwait j hj hj')
      -- The round for the gap copies nothing.
      have hfirst : roundsCopies false (m + 1) st = roundsCopies false m st.advance := by
        rw [roundsCopies, roundCopies, hnone, hpass]
        rfl
      have hcopies : reassembleRxSdusCopies st.advance = roundsCopies false m st.advance := by
        rw [reassembleRxSdusCopies_eq w hrh (by omega) hm (fun j hj _ hj' => hadvance j hj hj') ?_]
        · exact w.roundsCopies_of_waiting true false hm hadvance
        · rw [w.iterate_of_waiting true false hm hadvance, ← hpass, ← Function.iterate_succ_apply,
            ← hre]
          exact e'.missing
      rw [skipMissingCopies, if_pos (e.guard_iff.mpr hlt), roundsCopies_add, hfirst, hcopies,
        ← hre]
      refine congrArg _ (ih e' (by omega) (by omega) (by omega) (fun j hxj hj hj' => ?_) ?_)
      · exact (hother j hj (by omega)).mpr (hall j hxj (by omega) (by omega))
      · rw [hother _ (by omega) (by omega), show r + 1 + m + k = r + (m + 1 + k) by omega]
        exact hmiss
    · have hzero : n = 0 := by
        by_contra hne
        exact e.missing (hall r (by omega) (Nat.le_refl r) (by omega))
      rw [skipMissingCopies, if_neg fun hc => hlt (e.guard_iff.mp hc), hzero]
      rfl

/-! ### A received PDU -/

/-- A PDU that is kept is copied, and the rounds that it starts copy on. -/
theorem umReceivePduCopies_of_accepts (payload : Bytes) {header : UmdPduHeader} {buf : Bytes}
    (ha : UmAccepts st header.sn) :
    receivePduCopies st payload header buf
      = payload.length :: reassembleRxSdusCopies (storeDataPdu st header buf) := by
  obtain ⟨hge, hnone⟩ := ha
  unfold receivePduCopies
  rw [if_neg (by omega), if_neg (by simp [hnone])]

/-- A PDU that is not kept is copied nowhere. -/
theorem umReceivePduCopies_of_not_accepts (s : UmScale W st h) (payload : Bytes)
    {header : UmdPduHeader} {buf : Bytes} (ha : ¬UmAccepts st header.sn) :
    receivePduCopies st payload header buf = [] := by
  unfold receivePduCopies
  rw [umRxModBase_edge s]
  split
  · rfl
  · rename_i hlow
    rw [if_pos]
    by_contra hnone
    exact ha ⟨by omega, by simpa using hnone⟩

end

end SrsUE.Proofs.Rlc
