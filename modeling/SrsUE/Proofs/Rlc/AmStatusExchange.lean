import SrsUE.Proofs.Rlc.AmReceive
import SrsUE.Proofs.Rlc.AmTxWindow

/-!
# `SrsUE.Proofs.Rlc.AmStatusExchange`: what a status PDU says, and what it moves

A status PDU that the receiver computes when `vr_r` and `vr_ms` have the absolute indices `r`
and `ms` acknowledges everything below `r`, and NACKs `r` itself unless `ms` is `r`. This is
`StatusAt`, and `prepareStatus_statusAt` is the receiver's side of it.

The sender's side is `handleStatus_vtA`. As long as the sender is not ahead of `r`, and has
sent everything below `ms` with at most 512 PDUs outstanding, the loop of
`handle_control_pdu` moves `vt_a` to `r` exactly: the comparisons modulo 1024 cannot mistake
one index for another, however old the status PDU is.
-/

set_option autoImplicit false

namespace SrsUE.Proofs.Rlc

open SrsUE.Lib
open SrsUE.Rlc

/-- A status PDU from the time when `vr_r` and `vr_ms` had the indices `r` and `ms`. -/
structure StatusAt (status : StatusPdu) (r ms : Nat) : Prop where
  ackSn : status.ackSn = ms % 1024
  r_le_ms : r ≤ ms
  ms_le : ms ≤ r + 512
  length_le : status.nacks.length ≤ 512
  nacks : ∀ n ∈ status.nacks, n.hasSo = false ∧ ∃ i, r ≤ i ∧ i < ms ∧ n.nackSn = i % 1024
  nack_r : r < ms → ∃ n ∈ status.nacks, n.nackSn = r % 1024

/-- The status PDU of a fresh entity. -/
theorem statusAt_init : StatusAt {} 0 0 where
  ackSn := rfl
  r_le_ms := Nat.le_refl 0
  ms_le := by omega
  length_le := by simp
  nacks := by simp
  nack_r h := absurd h (Nat.lt_irrefl 0)

/-! ### The receiver computes a status PDU -/

section
variable {st : RlcAm} {r ms h : Nat} {recv : Nat → Prop} {Q : Nat → AmdRxPdu → Prop}

/-- The loop of `prepare_status` from the index `j` on NACKs the indices below `ms` that were
not received. -/
theorem collectNacks_eq [DecidablePred recv] (inv : RxInv st r ms h recv Q) :
    ∀ (rounds j : Nat), r ≤ j → j ≤ ms → ms - j ≤ rounds →
      collectNacks st rounds (j % 1024)
        = ((List.range' j (ms - j)).filter fun i => !decide (recv i)).map fun i =>
            { nackSn := i % 1024 } := by
  have hle := inv.h_le
  have hmsh := inv.ms_le_h
  have hms := inv.rxModBase_vrMs
  intro rounds
  induction rounds with
  | zero =>
    intro j _ _ hr
    have hempty : ms - j = 0 := by omega
    rw [hempty]
    rfl
  | succ rounds ih =>
    intro j hrj hjms hr
    have hj : st.rxModBase (j % 1024) = j - r := rxModBase_of_le inv.vrR hrj (by omega)
    rw [collectNacks, hj, hms]
    split
    · rename_i hlt
      have hsplit : ms - j = ms - (j + 1) + 1 := by omega
      -- Above `vr_r` an index is in the window exactly when it has been received.
      have hnone : (st.rxWindow (j % 1024)).isNone = !decide (recv j) := by
        have hiff := inv.toRxWindow.isSome_iff hrj (show j < r + 1024 by omega)
        by_cases hrecv : recv j
        · simpa [hrecv] using hiff
        · simpa [hrecv] using hiff
      rw [Nat.mod_add_mod, ih (j + 1) (by omega) (by omega) (by omega), hsplit,
        List.range'_succ, List.filter_cons, hnone]
      split
      · rfl
      · rfl
    · have hempty : ms - j = 0 := by omega
      rw [hempty]
      rfl

/-- The NACKs of `prepare_status`. -/
theorem prepareStatus_nacks [DecidablePred recv] (inv : RxInv st r ms h recv Q) :
    (prepareStatus st).status.nacks
      = ((List.range' r (ms - r)).filter fun i => !decide (recv i)).map fun i =>
          { nackSn := i % 1024 } := by
  have hms := inv.ms_le_h
  have hle := inv.h_le
  show collectNacks st 1024 st.vrR = _
  rw [inv.vrR]
  exact collectNacks_eq inv 1024 r (Nat.le_refl r) inv.r_le_ms (by omega)

/-- `prepare_status` reports the indices of `vr_r` and `vr_ms`. The PDU at `vr_r` is
missing, so it is NACKed whenever the report goes beyond it. -/
theorem prepareStatus_statusAt (inv : RxInv st r ms h recv Q) :
    StatusAt (prepareStatus st).status r ms := by
  classical
  have hrms := inv.r_le_ms
  have hmsh := inv.ms_le_h
  have hhle := inv.h_le
  have hnacks := prepareStatus_nacks inv
  refine { ackSn := inv.vrMs, r_le_ms := hrms, ms_le := by omega, length_le := ?_,
           nacks := ?_, nack_r := ?_ }
  · have hfilter := List.length_filter_le (fun i => !decide (recv i)) (List.range' r (ms - r))
    rw [hnacks, List.length_map]
    rw [List.length_range'] at hfilter
    omega
  · intro n hn
    rw [hnacks] at hn
    obtain ⟨i, hi, rfl⟩ := List.mem_map.mp hn
    have hrange := List.mem_range'_1.mp (List.mem_filter.mp hi).1
    exact ⟨rfl, i, by omega, by omega, rfl⟩
  · intro hlt
    rw [hnacks]
    refine ⟨_, List.mem_map.mpr ⟨r, List.mem_filter.mpr ⟨?_, ?_⟩, rfl⟩, rfl⟩
    · exact List.mem_range'_1.mpr ⟨Nat.le_refl r, by omega⟩
    · simpa using inv.missing_r

end

/-- The wire changes nothing that a status PDU says. -/
theorem StatusAt.wire {status : StatusPdu} {r ms : Nat} (h : StatusAt status r ms) :
    StatusAt (wireStatus status) r ms where
  ackSn := by
    show status.ackSn % 1024 = _
    rw [h.ackSn, Nat.mod_mod]
  r_le_ms := h.r_le_ms
  ms_le := h.ms_le
  length_le := by
    show (status.nacks.map wireNack).length ≤ 512
    rw [List.length_map]
    exact h.length_le
  nacks := by
    intro n hn
    obtain ⟨m, hm, rfl⟩ := List.mem_map.mp hn
    obtain ⟨hso, i, hri, hims, hi⟩ := h.nacks m hm
    refine ⟨hso, i, hri, hims, ?_⟩
    show m.nackSn % 1024 = _
    rw [hi, Nat.mod_mod]
  nack_r hlt := by
    obtain ⟨n, hn, hr⟩ := h.nack_r hlt
    refine ⟨wireNack n, List.mem_map_of_mem hn, ?_⟩
    show n.nackSn % 1024 = _
    rw [hr, Nat.mod_mod]

/-! ### The sender's window in absolute indices -/

/-- The transmit window holds the indices from `a` up to `s`, at most 512. -/
structure TxIndexed (st : RlcAm) (a s : Nat) : Prop where
  ok : TxWindowOk st
  vtA : st.vtA = a % 1024
  vtS : st.vtS = s % 1024
  a_le_s : a ≤ s
  s_le : s ≤ a + 512

section
variable {st st' : RlcAm} {a s : Nat}

/-- `TX_MOD_BASE` of an index not below `a` is its distance from `a`. -/
theorem TxIndexed.txModBase (h : TxIndexed st a s) {i : Nat} (hai : a ≤ i) (hi : i < a + 1024) :
    st.txModBase (i % 1024) = i - a := by
  rw [RlcAm.txModBase, h.vtA]
  exact modDist_of_le hai hi

/-- The outstanding PDUs are those between the indices. -/
theorem TxIndexed.outstanding (h : TxIndexed st a s) : outstanding st = s - a := by
  have hle := h.s_le
  show st.txModBase st.vtS = s - a
  rw [h.vtS]
  exact h.txModBase h.a_le_s (by omega)

/-- `tx_window` has the PDUs from `a` up to `s`. -/
theorem TxIndexed.isSome_iff (h : TxIndexed st a s) {i : Nat} (hai : a ≤ i) (hi : i < a + 1024) :
    (st.txWindow (i % 1024)).isSome ↔ i < s := by
  have hlt : i % 1024 < 1024 := Nat.mod_lt _ (by decide)
  have has := h.a_le_s
  rw [h.ok.keys, h.txModBase hai hi, h.outstanding]
  omega

/-- Every key of `tx_window` is the sequence number of such an index. -/
theorem TxIndexed.exists_index (h : TxIndexed st a s) {sn : Nat}
    (hsn : (st.txWindow sn).isSome) : ∃ i, a ≤ i ∧ i < s ∧ i % 1024 = sn := by
  obtain ⟨hlt, hdist⟩ := (h.ok.keys sn).mp hsn
  rw [h.outstanding, RlcAm.txModBase, h.vtA] at hdist
  refine ⟨a + modDist 1024 sn (a % 1024), by omega, by omega, ?_⟩
  rw [add_modDist_mod (by decide), Nat.mod_eq_of_lt hlt]

end

/-! ### The sender processes a status PDU -/

/-- An ACK does not move `vt_s`. -/
theorem ackPdu_vtS (i : Nat) (updateVtA : Bool) (st : RlcAm) :
    (ackPdu i updateVtA st).vtS = st.vtS := by
  obtain ⟨_, _, _, hf⟩ := ackPdu_frame i updateVtA st
  rw [hf]

/-- Behind the first NACK the loop leaves `vt_a` alone. -/
theorem handleAcks_false_vtA (status : StatusPdu) :
    ∀ (rounds i : Nat) (st : RlcAm), (handleAcks status rounds i false st).vtA = st.vtA := by
  intro rounds
  induction rounds with
  | zero => exact fun _ _ => rfl
  | succ rounds ih =>
    intro i st
    rw [handleAcks]
    split
    · simp only [Bool.false_and]
      rw [ih]
      split
      · obtain ⟨q, hq⟩ := queueNacks_frame i status.nacks st
        rw [hq]
      · unfold ackPdu
        split <;> rfl
    · rfl

/-- A status PDU NACKs none of the indices below `r` that are still outstanding. -/
theorem StatusAt.not_nacked {status : StatusPdu} {r ms j : Nat} (h : StatusAt status r ms)
    (hjr : j < r) (hms : ms ≤ j + 512) :
    (status.nacks.any fun n => n.nackSn == j % 1024) = false := by
  rw [List.any_eq_false]
  intro n hn
  obtain ⟨-, i, hri, him, hi⟩ := h.nacks n hn
  rw [hi, beq_iff_eq]
  intro heq
  have := eq_of_mod_eq heq (by omega) (by omega)
  omega

section
variable {status : StatusPdu} {r ms s : Nat}

/-- The loop of `handle_control_pdu` before the first NACK: it erases the PDUs from `a` up to
`r`, one in a round, and moves `vt_a` along. -/
theorem handleAcks_vtA (hat : StatusAt status r ms) (hms : ms ≤ s) :
    ∀ (rounds : Nat) {a : Nat} {st : RlcAm}, TxIndexed st a s → a ≤ r → r - a < rounds →
      (handleAcks status rounds st.vtA true st).vtA = r % 1024 := by
  have hrms := hat.r_le_ms
  intro rounds
  induction rounds with
  | zero => intro a st _ _ hlt; omega
  | succ rounds ih =>
    intro a st h har hlt
    have hsle := h.s_le
    have h0 : st.txModBase st.vtA = 0 := by
      rw [RlcAm.txModBase, modDist_self (by decide)]
    have hack : st.txModBase status.ackSn = ms - a := by
      rw [hat.ackSn]
      exact h.txModBase (by omega) (by omega)
    have hvs : st.txModBase st.vtS = s - a := h.outstanding
    rcases Nat.eq_or_lt_of_le har with rfl | har'
    · rcases Nat.eq_or_lt_of_le hrms with rfl | hrms'
      · -- Nothing is reported beyond `a`, so the loop does not start.
        rw [handleAcks, if_neg (by omega)]
        exact h.vtA
      · -- `a` is NACKed, and from here on `vt_a` stays.
        obtain ⟨n, hn, hnr⟩ := hat.nack_r hrms'
        have hnack : (status.nacks.any fun n => n.nackSn == st.vtA) = true := by
          rw [List.any_eq_true]
          exact ⟨n, hn, by rw [hnr, h.vtA, beq_self_eq_true]⟩
        obtain ⟨q, hq⟩ := queueNacks_frame st.vtA status.nacks st
        rw [handleAcks, if_pos (by omega)]
        simp only [hnack, Bool.not_true, Bool.and_false, if_true]
        rw [handleAcks_false_vtA, hq]
        exact h.vtA
    · -- `a` is acknowledged: one round erases it.
      have hnack : (status.nacks.any fun n => n.nackSn == st.vtA) = false := by
        rw [h.vtA]
        exact hat.not_nacked har' (by omega)
      have hpos : 0 < outstanding st := by
        rw [h.outstanding]
        omega
      obtain ⟨hok, hA⟩ := ackPdu_vtA_ok h.ok hpos
      have hnext : TxIndexed (ackPdu st.vtA true st) (a + 1) s :=
        { ok := hok
          vtA := by rw [hA, h.vtA, Nat.mod_add_mod]
          vtS := by rw [ackPdu_vtS]; exact h.vtS
          a_le_s := by omega
          s_le := by omega }
      rw [handleAcks, if_pos (by omega)]
      simp only [hnack, Bool.not_false, Bool.and_true, Bool.false_eq_true, if_false]
      rw [← hA]
      exact ih hnext har' (by omega)

/-- A status PDU from the time when `vr_r` had the index `r` moves `vt_a` to `r`. -/
theorem handleStatus_txIndexed {st : RlcAm} {a : Nat} (h : TxIndexed st a s)
    (hat : StatusAt status r ms) (har : a ≤ r) (hms : ms ≤ s) :
    TxIndexed (handleStatus st status) r s := by
  have hsle := h.s_le
  have hrms := hat.r_le_ms
  have hreset : TxIndexed { st with pollRetxTimeout := st.pollRetxTimeout.reset } a s :=
    { ok := h.ok.of_keys rfl rfl rfl fun _ => rfl
      vtA := h.vtA, vtS := h.vtS, a_le_s := h.a_le_s, s_le := h.s_le }
  refine { ok := handleStatus_ok h.ok status, vtA := ?_, vtS := ?_, a_le_s := by omega,
           s_le := by omega }
  · exact handleAcks_vtA hat hms 1024 hreset har (by omega)
  · refine handleAcks_inv (P := fun st' => st'.vtS = s % 1024) ?_ ?_ 1024 st.vtA true h.vtS
    · intro i st' n _ hS
      obtain ⟨q, hq⟩ := queueNack_frame i st' n
      rw [hq]
      exact hS
    · intro i upd st' hS
      rw [ackPdu_vtS]
      exact hS

end

end SrsUE.Proofs.Rlc
