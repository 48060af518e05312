import SrsUE.Lib.Framing
import SrsUE.Proofs.Rlc.AmSteps

/-!
# `SrsUE.Proofs.Rlc.AmReceive`: the receive window of an acknowledged mode entity

The receive variables of `rlc_am` are sequence numbers modulo 1024. `RxInv` ties them to
absolute indices: `r` for `vr_r`, `ms` for `vr_ms`, `h` for `vr_h`, together with the set
`recv` of the indices received so far. It says which entries `rx_window` has and where the
reordering timer stands.

* `skipReceived_spec` and `reassembleLoop_spec` are the two loops over `rx_window`: each
  stops at the first index that is missing, well before its bound on the rounds.
* `handleDataPdu_spec` is one whole PDU: a copy of a PDU below `r` or of one already
  received changes neither window nor indices, and any other PDU moves `r` to the least
  missing index.
* `checkReorderingTimeout_spec` is one expiry of the reordering timer.
-/

set_option autoImplicit false

namespace SrsUE.Proofs.Rlc

open SrsUE.Lib
open SrsUE.Rlc

/-! ### The window -/

/-- `rx_window` and the window edges at the absolute index `r`, for the received indices
`recv`. `Q i pdu` says that `pdu` is an admissible copy of the PDU with index `i`. The index
`r` itself may have arrived: this is the state in which `reassemble_rx_sdus` starts. -/
structure RxWindow (st : RlcAm) (r : Nat) (recv : Nat → Prop) (Q : Nat → AmdRxPdu → Prop) :
    Prop where
  vrR : st.vrR = r % 1024
  vrMr : st.vrMr = (r + 512) % 1024
  below : ∀ i, i < r → recv i
  bound : ∀ i, recv i → i < r + 512
  absent : ∀ i, r ≤ i → i < r + 1024 → ¬ recv i → st.rxWindow (i % 1024) = none
  present : ∀ i, r ≤ i → recv i → ∃ pdu, st.rxWindow (i % 1024) = some pdu ∧ Q i pdu

/-- The receive state between two calls: the window, the indices `ms` of `vr_ms` and `h` of
`vr_h`, and the index of `vr_x` while the reordering timer runs. -/
structure RxInv (st : RlcAm) (r ms h : Nat) (recv : Nat → Prop) (Q : Nat → AmdRxPdu → Prop) :
    Prop extends RxWindow st r recv Q where
  vrMs : st.vrMs = ms % 1024
  vrH : st.vrH = h % 1024
  r_le_ms : r ≤ ms
  ms_le_h : ms ≤ h
  h_le : h ≤ r + 512
  missing_r : ¬ recv r
  missing_ms : ¬ recv ms
  recv_lt : ∀ i, recv i → i < h
  timer : st.reorderingTimeout.running = true →
    ∃ x, st.vrX = x % 1024 ∧ r < x ∧ x ≤ h ∧ ∀ i, x ≤ i → i < ms → recv i

section
variable {st : RlcAm} {r ms h : Nat} {recv : Nat → Prop} {Q : Nat → AmdRxPdu → Prop}

/-- A fresh entity has received nothing. -/
theorem rxInv_init (cnfg : AmConfig) (Q : Nat → AmdRxPdu → Prop) :
    RxInv (configure {} cnfg) 0 0 0 (· ∈ ([] : List Nat)) Q where
  vrR := by simp [configure]
  vrMr := by simp [configure]
  below := by simp
  bound := by simp
  absent := fun _ _ _ _ => rfl
  present := by simp
  vrMs := by simp [configure]
  vrH := by simp [configure]
  r_le_ms := Nat.le_refl _
  ms_le_h := Nat.le_refl _
  h_le := by simp
  missing_r := by simp
  missing_ms := by simp
  recv_lt := by simp
  timer := fun h => by cases h

/-- An index of the window and the next 512 is present exactly when it was received. -/
theorem RxWindow.isSome_iff (w : RxWindow st r recv Q) {i : Nat} (hr : r ≤ i)
    (hi : i < r + 1024) : (st.rxWindow (i % 1024)).isSome ↔ recv i := by
  constructor
  · intro hs
    by_contra hn
    rw [w.absent i hr hi hn] at hs
    exact absurd hs (by simp)
  · intro hrecv
    obtain ⟨pdu, hpdu, -⟩ := w.present i hr hrecv
    rw [hpdu]
    rfl

/-- `RX_MOD_BASE` of an index not below `r` is its distance from `r`. -/
theorem rxModBase_of_le (hv : st.vrR = r % 1024) {i : Nat} (hr : r ≤ i) (hi : i < r + 1024) :
    st.rxModBase (i % 1024) = i - r := by
  rw [RlcAm.rxModBase, hv]
  exact modDist_of_le hr hi

/-- The distance of `vr_ms` from `vr_r`. -/
theorem RxInv.rxModBase_vrMs (inv : RxInv st r ms h recv Q) : st.rxModBase st.vrMs = ms - r := by
  have hmsh := inv.ms_le_h
  have hhle := inv.h_le
  rw [inv.vrMs]
  exact rxModBase_of_le inv.vrR inv.r_le_ms (by omega)

/-- The distance of `vr_h` from `vr_r`. -/
theorem RxInv.rxModBase_vrH (inv : RxInv st r ms h recv Q) : st.rxModBase st.vrH = h - r := by
  have hrms := inv.r_le_ms
  have hmsh := inv.ms_le_h
  have hhle := inv.h_le
  rw [inv.vrH]
  exact rxModBase_of_le inv.vrR (by omega) (by omega)

/-- `RX_MOD_BASE` of an index below `r` is at least 512. -/
theorem rxModBase_of_lt (hv : st.vrR = r % 1024) {i : Nat} (hi : i < r) (hr : r ≤ i + 512) :
    st.rxModBase (i % 1024) = 1024 - (r - i) := by
  rw [RlcAm.rxModBase, hv]
  exact modDist_of_lt hi (by omega)

/-- `inside_rx_window` accepts the indices from `r` on among those less than 512 away. -/
theorem insideRxWindow_iff (w : RxWindow st r recv Q) {i : Nat} (hlo : r ≤ i + 512)
    (hhi : i < r + 512) : insideRxWindow st (i % 1024) = true ↔ r ≤ i := by
  have h0 : st.rxModBase st.vrR = 0 := by
    rw [RlcAm.rxModBase, modDist_self (by omega)]
  have hmr : st.rxModBase st.vrMr = 512 := by
    rw [w.vrMr, rxModBase_of_le w.vrR (by omega) (by omega)]
    omega
  have hlt : st.rxModBase (i % 1024) < 512 ↔ r ≤ i := by
    rw [RlcAm.rxModBase, w.vrR]
    exact modDist_lt_iff (by omega) hlo hhi
  simp [insideRxWindow, h0, hmr, hlt]

/-! ### The loops over `rx_window` -/

/-- The loop that moves `vr_ms` stops at the first missing index `m` not below `j`. `h` is
some missing index further up, so fewer than `rounds` rounds are needed. -/
theorem skipReceived_spec (w : RxWindow st r recv Q) (hh : ∀ i, recv i → i < h)
    (hle : h ≤ r + 512) :
    ∀ (rounds j : Nat), r ≤ j → j ≤ h → h - j < rounds →
      ∃ m, skipReceived st.rxWindow rounds (j % 1024) = m % 1024 ∧ j ≤ m ∧ m ≤ h ∧ ¬ recv m ∧
        ∀ i, j ≤ i → i < m → recv i := by
  intro rounds
  induction rounds with
  | zero => intro j _ _ hlt; omega
  | succ rounds ih =>
    intro j hrj hjh hlt
    by_cases hj : recv j
    · -- `j` is there, so it is below `h` and one round is spent on it.
      have hjlt := hh j hj
      obtain ⟨m, hm, hjm, hmh, hmiss, hall⟩ := ih (j + 1) (by omega) (by omega) (by omega)
      refine ⟨m, ?_, by omega, hmh, hmiss, ?_⟩
      · rw [skipReceived, if_pos ((w.isSome_iff hrj (by omega)).mpr hj), Nat.mod_add_mod]
        exact hm
      · intro i hji him
        rcases Nat.eq_or_lt_of_le hji with rfl | hlt'
        · exact hj
        · exact hall i hlt' him
    · refine ⟨j, ?_, Nat.le_refl _, hjh, hj, fun i h1 h2 => by omega⟩
      rw [skipReceived, w.absent j hrj (by omega) hj]
      rfl

/-- One round delivers the PDU at `r` and moves the window by one. -/
theorem reassemblePdu_window (w : RxWindow st r recv Q) (hr : recv r) (pdu : AmdRxPdu) :
    RxWindow (reassemblePdu st pdu) (r + 1) recv Q where
  vrR := by
    show (st.vrR + 1) % 1024 = _
    rw [w.vrR, Nat.mod_add_mod]
  vrMr := by
    show (st.vrMr + 1) % 1024 = _
    rw [w.vrMr, Nat.mod_add_mod]
  below i hi := by
    rcases Nat.lt_succ_iff_lt_or_eq.mp hi with h | rfl
    · exact w.below i h
    · exact hr
  bound i hi := by have := w.bound i hi; omega
  absent i hri hi hn := by
    show st.rxWindow.erase st.vrR (i % 1024) = none
    rw [Dict.erase_apply, w.vrR]
    split
    · rfl
    · rename_i hne
      -- The one new index at the top is the erased one.
      have : i ≠ r + 1024 := by rintro rfl; exact hne (Nat.add_mod_right r 1024)
      exact w.absent i (by omega) (by omega) hn
  present i hri hrecv := by
    have hb := w.bound i hrecv
    have hne : i % 1024 ≠ r % 1024 := fun h => by
      have := eq_of_mod_eq h (by omega) (by omega)
      omega
    obtain ⟨p, hp, hq⟩ := w.present i (by omega) hrecv
    refine ⟨p, ?_, hq⟩
    show st.rxWindow.erase st.vrR (i % 1024) = some p
    rw [w.vrR, Dict.erase_of_ne _ hne]
    exact hp

/-- The loop of `reassemble_rx_sdus` moves the window to the first missing index `r'`. -/
theorem reassembleLoop_window (hh : ∀ i, recv i → i < h) :
    ∀ (rounds : Nat) {st : RlcAm} {r : Nat}, RxWindow st r recv Q → r ≤ h → h - r < rounds →
      ∃ r', r ≤ r' ∧ r' ≤ h ∧ ¬ recv r' ∧ (∀ i, r ≤ i → i < r' → recv i) ∧
        RxWindow (reassembleLoop rounds st) r' recv Q := by
  intro rounds
  induction rounds with
  | zero => intro st r _ _ hlt; omega
  | succ rounds ih =>
    intro st r w hrh hlt
    -- The loop goes on while the PDU at `vr_r` was received.
    by_cases hr : recv r
    · obtain ⟨pdu, hpdu, -⟩ := w.present r (Nat.le_refl _) hr
      have hrlt := hh r hr
      obtain ⟨r', hle, hlt', hmiss, hall, hw⟩ :=
        ih (reassemblePdu_window w hr pdu) (by omega) (by omega)
      refine ⟨r', by omega, hlt', hmiss, ?_, ?_⟩
      · intro i hri hir
        rcases Nat.eq_or_lt_of_le hri with rfl | hgt
        · exact hr
        · exact hall i hgt hir
      · rw [reassembleLoop, w.vrR, hpdu]
        exact hw
    · refine ⟨r, Nat.le_refl _, hrh, hr, fun i h1 h2 => by omega, ?_⟩
      rw [reassembleLoop, w.vrR, w.absent r (Nat.le_refl _) (by omega) hr]
      exact w

/-! ### What is delivered -/

/-- The stream of bytes and SDU ends in an AMD PDU: its data is cut at each length
indicator, and the last piece is closed when the framing bits say end-aligned. -/
def pduTokens (pdu : AmdRxPdu) : List (Token UInt8) :=
  frame pdu.header.li pdu.buf ++ (if endAligned pdu.header.fi then [none] else [])

/-- `st'` has delivered the stream `toks` on top of what `st` has: the SDUs that end in it
went to PDCP, and `rx_sdu` holds what is left. -/
def Delivers (st st' : RlcAm) (toks : List (Token UInt8)) : Prop :=
  st'.pdcp = st.pdcp ++ (deframe (st.rxSdu.getD []) toks).1 ∧
  st'.rxSdu.getD [] = (deframe (st.rxSdu.getD []) toks).2

/-- Two parts of reassembly deliver one after the other. -/
theorem Delivers.trans {st₁ st₂ st₃ : RlcAm} {xs ys : List (Token UInt8)}
    (h₁ : Delivers st₁ st₂ xs) (h₂ : Delivers st₂ st₃ ys) : Delivers st₁ st₃ (xs ++ ys) := by
  obtain ⟨hp₁, hs₁⟩ := h₁
  obtain ⟨hp₂, hs₂⟩ := h₂
  rw [hs₁] at hp₂ hs₂
  constructor
  · rw [hp₂, hp₁, deframe_append, List.append_assoc]
  · rw [hs₂, deframe_append]

/-- The loop over the length indicators reads the framed data of the PDU. -/
theorem deliverLis_eq_deframe (lis : List Nat) (buf rxSdu : Bytes) :
    deframe rxSdu (frame lis buf)
      = ((deliverLis lis buf rxSdu).2.2,
          (deliverLis lis buf rxSdu).2.1 ++ (deliverLis lis buf rxSdu).1) := by
  induction lis generalizing buf rxSdu with
  | nil => simp [deliverLis, deframe_data]
  | cons l lis ih =>
    rw [frame, deframe_data_append, deframe, ih]
    simp [deliverLis]

/-- One round of `reassemble_rx_sdus` delivers the stream of its PDU. -/
theorem reassemblePdu_delivers (st : RlcAm) (pdu : AmdRxPdu) :
    Delivers st (reassemblePdu st pdu) (pduTokens pdu) := by
  have h := deliverLis_eq_deframe pdu.header.li pdu.buf (st.rxSdu.getD [])
  unfold Delivers pduTokens
  rw [deframe_append, h]
  cases hfi : endAligned pdu.header.fi <;> simp [reassemblePdu, hfi, deframe]

/-- The loop of `reassemble_rx_sdus` delivers the PDUs from `r` up to the first missing
index `r'`, in the order of their indices. -/
theorem reassembleLoop_delivers {T : Nat → List (Token UInt8)}
    (hT : ∀ i pdu, Q i pdu → pduTokens pdu = T i) {r' : Nat} (hmiss : ¬ recv r') :
    ∀ (rounds : Nat) {st : RlcAm} {r : Nat}, RxWindow st r recv Q → r ≤ r' → r' < r + 512 + 1 →
      (∀ i, r ≤ i → i < r' → recv i) → r' - r < rounds →
      Delivers st (reassembleLoop rounds st) ((List.range' r (r' - r)).flatMap T) := by
  intro rounds
  induction rounds with
  | zero => intro st r _ _ _ _ hlt; omega
  | succ rounds ih =>
    intro st r w hrr' hbound hall hlt
    rcases Nat.eq_or_lt_of_le hrr' with rfl | hlt'
    · rw [reassembleLoop, w.vrR, w.absent r (Nat.le_refl _) (by omega) hmiss]
      simp [Delivers]
    · have hr := hall r (Nat.le_refl _) hlt'
      obtain ⟨pdu, hpdu, hq⟩ := w.present r (Nat.le_refl _) hr
      have hrest := ih (reassemblePdu_window w hr pdu) hlt' (by omega)
        (fun i h1 h2 => hall i (by omega) h2) (by omega)
      have hcons : (List.range' r (r' - r)).flatMap T
          = T r ++ (List.range' (r + 1) (r' - (r + 1))).flatMap T := by
        rw [show r' - r = (r' - (r + 1)) + 1 by omega, List.range'_succ, List.flatMap_cons]
      rw [reassembleLoop, w.vrR, hpdu, hcons, ← hT r pdu hq]
      exact (reassemblePdu_delivers st pdu).trans hrest

/-! ### One received PDU -/

/-- The window depends on its variables and entries only. -/
theorem RxWindow.of_eq {st' : RlcAm} (w : RxWindow st r recv Q) (hr : st'.vrR = st.vrR)
    (hmr : st'.vrMr = st.vrMr) (hw : st'.rxWindow = st.rxWindow) : RxWindow st' r recv Q where
  vrR := hr.trans w.vrR
  vrMr := hmr.trans w.vrMr
  below := w.below
  bound := w.bound
  absent := by rw [hw]; exact w.absent
  present := by rw [hw]; exact w.present

/-- A state with the same receive window, variables and reordering timer satisfies the same
invariant. -/
theorem RxInv.of_eq {st' : RlcAm} (inv : RxInv st r ms h recv Q) (hr : st'.vrR = st.vrR)
    (hmr : st'.vrMr = st.vrMr) (hw : st'.rxWindow = st.rxWindow) (hms : st'.vrMs = st.vrMs)
    (hh : st'.vrH = st.vrH) (hx : st'.vrX = st.vrX)
    (ht : st'.reorderingTimeout = st.reorderingTimeout) : RxInv st' r ms h recv Q where
  toRxWindow := inv.toRxWindow.of_eq hr hmr hw
  vrMs := hms.trans inv.vrMs
  vrH := hh.trans inv.vrH
  r_le_ms := inv.r_le_ms
  ms_le_h := inv.ms_le_h
  h_le := inv.h_le
  missing_r := inv.missing_r
  missing_ms := inv.missing_ms
  recv_lt := inv.recv_lt
  timer := by rw [ht, hx]; exact inv.timer

/-- The window after a new PDU with index `i` is written to it. -/
theorem RxWindow.insert (w : RxWindow st r recv Q) {i : Nat} (hri : r ≤ i) (hi : i < r + 512)
    {pdu : AmdRxPdu} (hq : Q i pdu) :
    RxWindow { st with rxWindow := st.rxWindow.insert (i % 1024) pdu } r
      (fun j => recv j ∨ j = i) Q where
  vrR := w.vrR
  vrMr := w.vrMr
  below j hj := .inl (w.below j hj)
  bound j hj := by
    rcases hj with hj | rfl
    · exact w.bound j hj
    · exact hi
  absent j hrj hj hn := by
    have hne : j % 1024 ≠ i % 1024 := fun h =>
      hn (.inr (eq_of_mod_eq h (by omega) (by omega)))
    show st.rxWindow.insert (i % 1024) pdu (j % 1024) = none
    rw [Dict.insert_of_ne _ _ hne]
    exact w.absent j hrj hj fun h => hn (.inl h)
  present j hrj hj := by
    show ∃ p, st.rxWindow.insert (i % 1024) pdu (j % 1024) = some p ∧ Q j p
    by_cases hji : j = i
    · subst hji
      exact ⟨pdu, Dict.insert_self _ _ _, hq⟩
    · have hrecv : recv j := hj.resolve_right hji
      have hb := w.bound j hrecv
      have hne : j % 1024 ≠ i % 1024 := fun h => hji (eq_of_mod_eq h (by omega) (by omega))
      rw [Dict.insert_of_ne _ _ hne]
      exact w.present j hrj hrecv

/-- `updateVrH` writes `vr_h` only. Its index becomes the maximum of `h` and `i + 1`. -/
theorem updateVrH_spec (hv : st.vrR = r % 1024) (hh : st.vrH = h % 1024) (hrh : r ≤ h)
    (hle : h ≤ r + 512) {i : Nat} (hri : r ≤ i) (hi : i < r + 512) :
    updateVrH st (i % 1024) = { st with vrH := max h (i + 1) % 1024 } := by
  have h1 : st.rxModBase st.vrH = h - r := by
    rw [hh]
    exact rxModBase_of_le hv hrh (by omega)
  have h2 : st.rxModBase (i % 1024) = i - r := rxModBase_of_le hv hri (by omega)
  unfold updateVrH
  rw [h1, h2]
  split
  · rw [Nat.max_eq_right (by omega), Nat.mod_add_mod]
  · rw [Nat.max_eq_left (by omega), ← hh]

/-- The timer after `updateReordering`. It keeps running for an index `x` above `r`, and is
stopped for one that delivery has reached. A new start covers everything up to `h`. -/
theorem updateReordering_timer {x : Nat} (hv : st.vrR = r % 1024)
    (hmr : st.vrMr = (r + 512) % 1024) (hh : st.vrH = h % 1024) (hrh : r ≤ h)
    (hle : h ≤ r + 512)
    (ht : st.reorderingTimeout.running = true → st.vrX = x % 1024 ∧ r < x + 512 ∧ x ≤ h)
    (now : Nat) :
    (updateReordering st now).reorderingTimeout.running = true →
      ((updateReordering st now).vrX = x % 1024 ∧ r < x ∧ x ≤ h ∧
        st.reorderingTimeout.running = true) ∨
      ((updateReordering st now).vrX = h % 1024 ∧ r < h) := by
  have h0 : st.rxModBase st.vrR = 0 := by
    rw [RlcAm.rxModBase, modDist_self (by omega)]
  have hMr : st.rxModBase st.vrMr = 512 := by
    rw [hmr, rxModBase_of_le hv (by omega) (by omega)]
    omega
  have hH : st.rxModBase st.vrH = h - r := by
    rw [hh]
    exact rxModBase_of_le hv hrh (by omega)
  intro hrun
  by_cases hold : st.reorderingTimeout.running = true
  · obtain ⟨hx, hxr, hxh⟩ := ht hold
    by_cases hrx : r < x
    · -- Delivery has not reached `x`: no reset, so the old start stays.
      have hX : st.rxModBase st.vrX = x - r := by
        rw [hx]
        exact rxModBase_of_le hv (by omega) (by omega)
      have hne : st.vrX ≠ st.vrR := by
        intro heq
        rw [heq, h0] at hX
        omega
      have hnot : ¬ 512 < x - r := by omega
      have hsame : updateReordering st now = st := by
        simp [updateReordering, hold, hne, h0, hMr, hX, hnot]
      rw [hsame]
      exact .inl ⟨hx, hrx, hxh, hold⟩
    · -- Delivery has reached `x`: the timer is reset, and it runs only if started anew.
      have hreset : (decide (st.vrX = st.vrR)
          || (decide (st.rxModBase st.vrX < st.rxModBase st.vrR)
            || decide (st.rxModBase st.vrMr < st.rxModBase st.vrX)
              && decide (st.vrX ≠ st.vrMr))) = true := by
        rcases Nat.eq_or_lt_of_le (Nat.le_of_not_lt hrx) with rfl | hlt
        · simp [hx, hv]
        · have hX : st.rxModBase st.vrX = 1024 - (r - x) := by
            rw [hx]
            exact rxModBase_of_lt hv hlt (by omega)
          have hne : st.vrX ≠ st.vrMr := by
            intro heq
            rw [heq, hMr] at hX
            omega
          simp [hMr, hX, hne]
          omega
      unfold updateReordering at hrun ⊢
      simp only [hold, hreset, Bool.and_self, if_true, Timeout.running_reset, Bool.not_false,
        Bool.true_and, decide_eq_true_eq] at hrun ⊢
      split at hrun
      · rename_i hlt
        refine .inr ⟨?_, ?_⟩
        · rw [if_pos hlt]
          exact hh
        · have hlt' : st.rxModBase st.vrR < st.rxModBase st.vrH := hlt
          rw [h0, hH] at hlt'
          omega
      · exact absurd hrun (by simp)
  · have hold' : st.reorderingTimeout.running = false := by simpa using hold
    unfold updateReordering at hrun ⊢
    simp only [hold', Bool.false_and, Bool.false_eq_true, if_false, Bool.not_false,
      Bool.true_and, decide_eq_true_eq] at hrun ⊢
    split at hrun
    · rename_i hlt
      refine .inr ⟨?_, ?_⟩
      · rw [if_pos hlt]
        exact hh
      · rw [h0, hH] at hlt
        omega
    · exact absurd hrun (by simp [hold'])

/-- Writing a new PDU with index `i` to the window: `vr_h` covers it, and `vr_ms` moves to
the next missing index `ms'`. -/
theorem storeDataPdu_spec (inv : RxInv st r ms h recv Q) {i : Nat} (hri : r ≤ i)
    (hi : i < r + 512) {payload : Bytes} {header : AmdPduHeader} (hsn : header.sn = i % 1024)
    (hq : Q i { header := header, buf := payload }) :
    ∃ ms' pollReceived doStatus, storeDataPdu st payload header
        = { st with
            rxWindow := st.rxWindow.insert header.sn { header := header, buf := payload }
            vrH := max h (i + 1) % 1024, vrMs := ms' % 1024
            pollReceived := pollReceived, doStatus := doStatus } ∧
      RxWindow (storeDataPdu st payload header) r (fun j => recv j ∨ j = i) Q ∧
      ms ≤ ms' ∧ ms' ≤ max h (i + 1) ∧ ¬ (recv ms' ∨ ms' = i) ∧
      ∀ j, ms ≤ j → j < ms' → recv j ∨ j = i := by
  have hrh : r ≤ h := Nat.le_trans inv.r_le_ms inv.ms_le_h
  have hle := inv.h_le
  have w := inv.toRxWindow.insert hri hi hq
  rw [← hsn] at w
  -- In the order of the source: the window, `vr_h`, `vr_ms`, and the poll bit.
  have hH := @updateVrH_spec { st with
    rxWindow := st.rxWindow.insert header.sn { header := header, buf := payload } } r h
    inv.vrR inv.vrH hrh hle i hri hi
  rw [← hsn] at hH
  have hlt : ∀ j, recv j ∨ j = i → j < max h (i + 1) := by
    rintro j (hj | rfl)
    · have := inv.recv_lt j hj
      omega
    · omega
  have hmh : ms ≤ max h (i + 1) := by
    have := inv.ms_le_h
    omega
  obtain ⟨ms', hskip, hge, hle', hmiss, hall⟩ :=
    skipReceived_spec w hlt (by omega) 1024 ms inv.r_le_ms hmh (by have := inv.r_le_ms; omega)
  obtain ⟨p, d, hpoll⟩ := checkPollBit_frame { st with
    rxWindow := st.rxWindow.insert header.sn { header := header, buf := payload }
    vrH := max h (i + 1) % 1024, vrMs := ms' % 1024 } header
  have heq : storeDataPdu st payload header = { st with
      rxWindow := st.rxWindow.insert header.sn { header := header, buf := payload }
      vrH := max h (i + 1) % 1024, vrMs := ms' % 1024, pollReceived := p, doStatus := d } := by
    rw [storeDataPdu, hH]
    simp only [inv.vrMs]
    rw [hskip, hpoll]
  refine ⟨ms', p, d, heq, ?_, hge, hle', hmiss, hall⟩
  rw [heq]
  exact w.of_eq rfl rfl rfl

/-- What a whole PDU with index `i` does. Afterwards `i` counts as received, the window starts at
the new least missing index `r'`, no index has moved back, the index of `vr_h` covers `i`, and the
PDUs from `r` up to `r'` were delivered. -/
def ReceivesPdu (st : RlcAm) (r ms h : Nat) (recv : Nat → Prop) (Q : Nat → AmdRxPdu → Prop)
    (i : Nat)
    (st' : RlcAm) : Prop :=
  ∃ r' ms' h', RxInv st' r' ms' h' (fun j => recv j ∨ j = i) Q ∧
    r ≤ r' ∧ r' ≤ r + 512 ∧ ms ≤ ms' ∧ h ≤ h' ∧ h' ≤ max h (i + 1) ∧
    ∀ T : Nat → List (Token UInt8), (∀ j pdu, Q j pdu → pduTokens pdu = T j) →
      Delivers st st' ((List.range' r (r' - r)).flatMap T)

/-- A PDU that is discarded was received before, so only the poll state changes. -/
theorem RxInv.discarded (inv : RxInv st r ms h recv Q) {i : Nat} (hrecv : recv i)
    (header : AmdPduHeader) :
    ReceivesPdu st r ms h recv Q i (pollDiscarded st header) := by
  have hsame : (fun j => recv j ∨ j = i) = recv := by
    funext j
    exact propext ⟨fun hj => hj.elim id (fun h => h ▸ hrecv), .inl⟩
  rw [ReceivesPdu, hsame]
  refine ⟨r, ms, h, inv.of_eq rfl rfl rfl rfl rfl rfl rfl, Nat.le_refl _, by omega,
    Nat.le_refl _, Nat.le_refl _, by omega, fun T _ => ?_⟩
  simp [Delivers, pollDiscarded]

/-- The timer after a PDU was stored and reassembled from `r` up to `r'`. It runs on for the index
that it was started for, or was started anew. -/
theorem RxInv.timer_updated (inv : RxInv st r ms h recv Q) {i r' ms' h' : Nat} {st' : RlcAm}
    (hvX : st'.vrX = st.vrX) (htimer : st'.reorderingTimeout = st.reorderingTimeout)
    (hvR : st'.vrR = r' % 1024) (hvMr : st'.vrMr = (r' + 512) % 1024) (hvH : st'.vrH = h' % 1024)
    (hr : r ≤ r') (hr'h : r' ≤ h') (hh : h ≤ h') (hle : h' ≤ r' + 512) (hms : ms' ≤ h')
    (hall : ∀ j, ms ≤ j → j < ms' → recv j ∨ j = i) (hrms : r' ≤ r + 512) (now : Nat) :
    (updateReordering st' now).reorderingTimeout.running = true →
      ∃ x, (updateReordering st' now).vrX = x % 1024 ∧ r' < x ∧ x ≤ h' ∧
        ∀ j, x ≤ j → j < ms' → recv j ∨ j = i := by
  -- The timer ran before, for a gap that is still open or is closed now, or it is started.
  by_cases hrun : st.reorderingTimeout.running = true
  · obtain ⟨x, hx, hrx, hxh, hxms⟩ := inv.timer hrun
    intro hrun'
    rcases updateReordering_timer (x := x) hvR hvMr hvH hr'h hle
        (fun _ => ⟨hvX.trans hx, by omega, by omega⟩) now hrun' with
      ⟨hx', hlt', hle', -⟩ | ⟨hx', hlt'⟩
    · refine ⟨x, hx', hlt', hle', fun j hxj hj => ?_⟩
      rcases Nat.lt_or_ge j ms with hjms | hjms
      · exact .inl (hxms j hxj hjms)
      · exact hall j hjms hj
    · exact ⟨_, hx', hlt', Nat.le_refl _, fun j h1 h2 => by omega⟩
  · intro hrun'
    rcases updateReordering_timer (x := 0) hvR hvMr hvH hr'h hle
        (fun hold => absurd (htimer ▸ hold) hrun) now hrun' with ⟨-, hlt', -⟩ | ⟨hx', hlt'⟩
    · omega
    · exact ⟨_, hx', hlt', Nat.le_refl _, fun j h1 h2 => by omega⟩

/-- A PDU that is inside the window, and was not received before, is stored. -/
theorem RxInv.stored (inv : RxInv st r ms h recv Q) {i : Nat} (hri : r ≤ i) (hi : i < r + 512)
    {payload : Bytes} {header : AmdPduHeader} (hsn : header.sn = i % 1024)
    (hq : Q i { header := header, buf := payload }) (now : Nat) :
    ReceivesPdu st r ms h recv Q i
      (updateReordering (reassembleRxSdus (storeDataPdu st payload header)) now) := by
  obtain ⟨ms', p, d, hstore, w, hms, hmsle, hmiss, hall⟩ := storeDataPdu_spec inv hri hi hsn hq
  have hlt : ∀ j, recv j ∨ j = i → j < max h (i + 1) := by
    rintro j (hj | rfl)
    · have := inv.recv_lt j hj
      omega
    · omega
  have hrms := inv.r_le_ms
  have hmsh := inv.ms_le_h
  have hhle := inv.h_le
  have w' : RxWindow { storeDataPdu st payload header with
      rxSdu := some ((storeDataPdu st payload header).rxSdu.getD []) } r
      (fun j => recv j ∨ j = i) Q := w.of_eq rfl rfl rfl
  obtain ⟨r', hrr', hr'h, hmiss', hall', hw⟩ :=
    reassembleLoop_window hlt 1024 w' (by omega) (by omega)
  obtain ⟨sdu, pdcp, rw', vrR', vrMr', hframe⟩ := reassembleLoop_frame 1024
    { storeDataPdu st payload header with
      rxSdu := some ((storeDataPdu st payload header).rxSdu.getD []) }
  obtain ⟨timer', vrX', hreord⟩ :=
    updateReordering_frame (reassembleRxSdus (storeDataPdu st payload header)) now
  -- `ms'` is missing, so delivery stops at it or before it.
  have hr'ms : r' ≤ ms' := by
    by_contra hgt
    exact hmiss (hall' ms' (by omega) (by omega))
  have hre : reassembleRxSdus (storeDataPdu st payload header)
      = { storeDataPdu st payload header with
          rxSdu := sdu, pdcp := pdcp, rxWindow := rw', vrR := vrR', vrMr := vrMr' } := hframe
  have hvH : (reassembleRxSdus (storeDataPdu st payload header)).vrH
      = max h (i + 1) % 1024 := by rw [hre, hstore]
  have hvMs : (reassembleRxSdus (storeDataPdu st payload header)).vrMs = ms' % 1024 := by
    rw [hre, hstore]
  have hvX : (reassembleRxSdus (storeDataPdu st payload header)).vrX = st.vrX := by
    rw [hre, hstore]
  have hT : (reassembleRxSdus (storeDataPdu st payload header)).reorderingTimeout
      = st.reorderingTimeout := by rw [hre, hstore]
  refine ⟨r', ms', max h (i + 1), ?_, hrr', by omega, hms, by omega, Nat.le_refl _, ?_⟩
  · refine { toRxWindow := ?_, vrMs := ?_, vrH := ?_, r_le_ms := hr'ms, ms_le_h := hmsle,
             h_le := by omega, missing_r := hmiss', missing_ms := hmiss, recv_lt := hlt,
             timer := ?_ }
    · rw [hreord]
      exact hw.of_eq rfl rfl rfl
    · rw [hreord]
      exact hvMs
    · rw [hreord]
      exact hvH
    · exact inv.timer_updated hvX hT hw.vrR hw.vrMr hvH hrr' hr'h (by omega) (by omega) hmsle hall
        (by omega) now
  · intro T hTok
    have hdel := reassembleLoop_delivers hTok hmiss' 1024 w' hrr' (by omega) hall' (by omega)
    rw [hreord]
    rw [hstore] at hdel ⊢
    exact hdel

/-- One whole PDU with index `i`, less than 512 away from `r`. -/
theorem handleDataPdu_spec (inv : RxInv st r ms h recv Q) {i : Nat} (hlo : r ≤ i + 512)
    (hi : i < r + 512) {payload : Bytes} {header : AmdPduHeader} (hsn : header.sn = i % 1024)
    (hq : Q i { header := header, buf := payload }) (now : Nat) :
    ReceivesPdu st r ms h recv Q i (handleDataPdu st now payload header) := by
  -- Behind the window and a duplicate the PDU is discarded; otherwise it is stored.
  by_cases hri : r ≤ i
  · have hin : insideRxWindow st header.sn = true := by
      rw [hsn]
      exact (insideRxWindow_iff inv.toRxWindow hlo hi).mpr hri
    by_cases hrecv : recv i
    · have hsome : (st.rxWindow header.sn).isSome := by
        rw [hsn]
        exact (inv.isSome_iff hri (by omega)).mpr hrecv
      rw [handleDataPdu, hin, if_pos hsome]
      exact inv.discarded hrecv header
    · have hnone : st.rxWindow header.sn = none := by
        rw [hsn]
        exact inv.absent i hri (by omega) hrecv
      have hnew : handleDataPdu st now payload header
          = updateReordering (reassembleRxSdus (storeDataPdu st payload header)) now := by
        simp [handleDataPdu, hin, hnone]
      rw [hnew]
      exact inv.stored hri hi hsn hq now
  · have hout : insideRxWindow st header.sn = false := by
      rw [hsn, ← Bool.not_eq_true, insideRxWindow_iff inv.toRxWindow hlo hi]
      exact hri
    rw [handleDataPdu, hout]
    exact inv.discarded (inv.below i (by omega)) header

/-- One check of the reordering timer. An expiry moves `vr_ms` to the first missing index
not below `vr_x`, which is never a step back. -/
theorem checkReorderingTimeout_spec (inv : RxInv st r ms h recv Q) (now : Nat) :
    ∃ ms', RxInv (checkReorderingTimeout st now) r ms' h recv Q ∧ ms ≤ ms' := by
  unfold checkReorderingTimeout
  split
  · rename_i hcond
    have hrun : st.reorderingTimeout.running = true := by
      simp only [Bool.and_eq_true] at hcond
      exact hcond.1
    obtain ⟨x, hx, hrx, hxh, hxms⟩ := inv.timer hrun
    have hhle := inv.h_le
    obtain ⟨m, hskip, hxm, hmh, hmiss, hall⟩ :=
      skipReceived_spec inv.toRxWindow inv.recv_lt hhle 1024 x (by omega) hxh (by omega)
    -- All from `vr_x` up to `vr_ms` has been received, so the loop does not stop before it.
    have hms : ms ≤ m := by
      by_contra hgt
      exact hmiss (hxms m hxm (by omega))
    refine ⟨m, ?_, hms⟩
    have hbase : RxInv { st with
        reorderingTimeout := st.reorderingTimeout.reset
        vrMs := skipReceived st.rxWindow 1024 st.vrX
        doStatus := st.doStatus || st.pollReceived } r m h recv Q :=
      { toRxWindow := inv.toRxWindow.of_eq rfl rfl rfl
        vrMs := by rw [hx]; exact hskip
        vrH := inv.vrH
        r_le_ms := by omega
        ms_le_h := hmh
        h_le := hhle
        missing_r := inv.missing_r
        missing_ms := hmiss
        recv_lt := inv.recv_lt
        timer := fun hrun' => absurd hrun' (by simp) }
    simp only
    split
    · rename_i hgt
      refine { toRxWindow := inv.toRxWindow.of_eq rfl rfl rfl, vrMs := hbase.vrMs,
               vrH := hbase.vrH, r_le_ms := hbase.r_le_ms, ms_le_h := hmh, h_le := hhle,
               missing_r := inv.missing_r, missing_ms := hmiss, recv_lt := inv.recv_lt,
               timer := fun _ => ⟨h, inv.vrH, by omega, Nat.le_refl _, fun j h1 h2 => by omega⟩ }
    · exact hbase
  · exact ⟨ms, inv, Nat.le_refl _⟩

end

end SrsUE.Proofs.Rlc
