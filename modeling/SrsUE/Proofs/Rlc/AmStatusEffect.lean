import Mathlib.Data.List.Nodup
import SrsUE.Proofs.Rlc.AmTxWindow

/-!
# `SrsUE.Proofs.Rlc.AmStatusEffect`: what a status report changes

`handle_control_pdu` walks from `vt_a` up to ACK_SN, but not beyond `vt_s`, and moves `vt_a`
while it walks. Seen from the `vt_a` before the report, the walk is over the offsets
`0, 1, …` below `reported`, and `afterReport st status k j` is the state when it has passed
the offsets below `j`, the first `k` of which left the window:

* `handleAcks_true` is the part of the walk before the first NACK, where `k` is `j`;
* `handleAcks_false` is the part behind it, where `k` stays;
* `handleStatus_eq` puts them together. The result holds for every bound on the rounds that
  is not below `reported`, so the loop of the source ends.

All of this needs only that the outstanding PDUs are in `tx_window` (`TxCovers`), which is so
in every state that an entity can reach (`txCovers_run`), also when more than 512 are
outstanding.
-/

set_option autoImplicit false

namespace SrsUE.Proofs.Rlc

open SrsUE.Lib
open SrsUE.Rlc

/-! ### The report, seen from `vt_a` -/

/-- The report NACKs the sequence number. -/
def nacked (status : StatusPdu) (sn : Nat) : Bool := status.nacks.any fun n => n.nackSn == sn

/-- The sequence number `j` above `vt_a`. -/
def txSn (st : RlcAm) (j : Nat) : Nat := (st.vtA + j) % 1024

/-- The number of sequence numbers that the loop of `handle_control_pdu` walks over. -/
def reported (st : RlcAm) (status : StatusPdu) : Nat :=
  min (st.txModBase status.ackSn) (outstanding st)

/-- The length of the longest run of sequence numbers from `vt_a` on that are reported and
not NACKed. -/
def ackRun (st : RlcAm) (status : StatusPdu) : Nat :=
  (List.range (reported st status)).findIdx fun j => nacked status (txSn st j)

/-- The entry of `retx_queue` for a sequence number that is not queued yet. The first NACK of
the sequence number decides about its range. -/
def nackEntry (st : RlcAm) (nacks : List StatusNack) (sn : Nat) : Option AmdRetx :=
  if retxQueueHasSn st sn then none
  else (nacks.find? fun n => n.nackSn == sn).bind fun n =>
    (st.txWindow sn).map fun tx => retxOfNack sn tx n

/-- The new entries of `retx_queue` for the first `j` sequence numbers. -/
def newEntries (st : RlcAm) (status : StatusPdu) (j : Nat) : List AmdRetx :=
  (List.range j).filterMap fun i => nackEntry st status.nacks (txSn st i)

/-- `tx_window` when the first `k` of the first `j` sequence numbers have left it and the
others are marked, unless they are NACKed. -/
def reportWindow (st : RlcAm) (status : StatusPdu) (k j : Nat) : Dict Nat AmdTxPdu := fun sn =>
  if sn < 1024 ∧ st.txModBase sn < k then none
  else if sn < 1024 ∧ st.txModBase sn < j ∧ nacked status sn = false then
    (st.txWindow sn).map fun tx => { tx with isAcked := true }
  else st.txWindow sn

/-- The state when the loop has passed the first `j` sequence numbers, and the first `k` of
them have left the window. -/
def afterReport (st : RlcAm) (status : StatusPdu) (k j : Nat) : RlcAm :=
  { st with
    txWindow := reportWindow st status k j
    retxQueue := st.retxQueue ++ newEntries st status j
    vtA := txSn st k
    vtMs := (st.vtMs + k) % 1024 }

/-- The outstanding PDUs are in `tx_window`, and the window variables are sequence
numbers. -/
structure TxCovers (st : RlcAm) : Prop where
  vtA_lt : st.vtA < 1024
  vtS_lt : st.vtS < 1024
  vtMs_lt : st.vtMs < 1024
  keys_lt : ∀ sn, (st.txWindow sn).isSome → sn < 1024
  covers : ∀ j, j < outstanding st → (st.txWindow (txSn st j)).isSome

section
variable {st : RlcAm} {status : StatusPdu} {k j : Nat}

/-- Fewer than 1024 PDUs are outstanding. -/
theorem outstanding_lt (st : RlcAm) : outstanding st < 1024 := modDist_lt (by decide) _ _

/-- The loop walks over fewer than 1024 sequence numbers. -/
theorem reported_lt (st : RlcAm) (status : StatusPdu) : reported st status < 1024 :=
  Nat.lt_of_le_of_lt (Nat.min_le_right _ _) (outstanding_lt st)

/-- The distance of a sequence number from `vt_a`. -/
theorem txModBase_txSn (hA : st.vtA < 1024) (hj : j < 1024) : st.txModBase (txSn st j) = j := by
  have h := modDist_of_le (m := 1024) (Nat.le_add_right st.vtA j) (by omega)
  rw [Nat.mod_eq_of_lt hA] at h
  rw [RlcAm.txModBase, txSn, h]
  omega

/-- A sequence number is the one at its distance. -/
theorem txSn_txModBase (hA : st.vtA < 1024) {sn : Nat} (hsn : sn < 1024) :
    txSn st (st.txModBase sn) = sn := by
  have h := add_modDist_mod (m := 1024) (by decide) sn st.vtA
  rw [Nat.mod_eq_of_lt hA, Nat.mod_eq_of_lt hsn] at h
  exact h

/-- The first one is `vt_a`. -/
theorem txSn_zero (hA : st.vtA < 1024) : txSn st 0 = st.vtA := Nat.mod_eq_of_lt hA

/-- The next one is at the next distance. -/
theorem txSn_succ (st : RlcAm) (j : Nat) : (txSn st j + 1) % 1024 = txSn st (j + 1) :=
  Nat.mod_add_mod _ _ _

/-- They have ten bits. -/
theorem txSn_lt (st : RlcAm) (j : Nat) : txSn st j < 1024 := Nat.mod_lt _ (by decide)

/-- The only sequence number at the offset `j` is `txSn st j`. -/
theorem txModBase_eq_iff (hA : st.vtA < 1024) (hj : j < 1024) {sn : Nat} (hsn : sn < 1024) :
    st.txModBase sn = j ↔ sn = txSn st j := by
  constructor
  · intro h
    rw [← h, txSn_txModBase hA hsn]
  · intro h
    rw [h, txModBase_txSn hA hj]

/-- A transmit window in order covers the outstanding PDUs. -/
theorem txCovers_of_ok (h : TxWindowOk st) : TxCovers st where
  vtA_lt := h.vtA_lt
  vtS_lt := h.vtS_lt
  vtMs_lt := by
    rw [h.vtMs]
    exact Nat.mod_lt _ (by decide)
  keys_lt sn hsn := ((h.keys sn).mp hsn).1
  covers j hj := by
    have hlt := outstanding_lt st
    refine (h.keys _).mpr ⟨txSn_lt st j, ?_⟩
    rw [txModBase_txSn h.vtA_lt (by omega)]
    exact hj

/-- Nothing is passed at first. -/
theorem afterReport_zero (h : TxCovers st) : afterReport st status 0 0 = st := by
  have hw : reportWindow st status 0 0 = st.txWindow := by
    funext sn
    simp [reportWindow]
  have hq : st.retxQueue ++ newEntries st status 0 = st.retxQueue := by simp [newEntries]
  rw [afterReport, hw, hq, txSn_zero h.vtA_lt, Nat.add_zero, Nat.mod_eq_of_lt h.vtMs_lt]

/-- `TX_MOD_BASE` in a state whose `vt_a` has moved by `k`. -/
theorem afterReport_txModBase {x : Nat} (hk : k ≤ st.txModBase x) :
    (afterReport st status k j).txModBase x = st.txModBase x - k := by
  have hlt : st.txModBase x < 1024 := modDist_lt (by decide) _ _
  show modDist 1024 x (txSn st k) = _
  unfold RlcAm.txModBase modDist txSn at *
  omega

/-! ### One NACK and one ACK -/

/-- The entry for a NACK has the sequence number of its PDU. -/
theorem retxOfNack_sn (sn : Nat) (tx : AmdTxPdu) (nack : StatusNack) :
    (retxOfNack sn tx nack).sn = sn := by
  unfold retxOfNack
  split <;> rfl

/-- The NACKs of one sequence number queue it once, unless it is queued. -/
theorem foldl_queueNack (sn : Nat) (nacks : List StatusNack) (st : RlcAm) :
    nacks.foldl (queueNack sn) st
      = { st with retxQueue := st.retxQueue ++ (nackEntry st nacks sn).toList } := by
  induction nacks generalizing st with
  | nil => simp [nackEntry]
  | cons n ns ih =>
    rw [List.foldl_cons, ih]
    by_cases hsn : n.nackSn = sn
    · cases htx : st.txWindow sn with
      | none => simp [queueNack, hsn, htx, nackEntry]
      | some tx =>
        cases hq : retxQueueHasSn st sn with
        | true => simp [queueNack, hsn, htx, hq, nackEntry]
        | false =>
          -- The entry is queued now, so the later NACKs find it there.
          have hhas : retxQueueHasSn
              { st with retxQueue := st.retxQueue ++ [retxOfNack sn tx n] } sn = true := by
            simp [retxQueueHasSn, retxOfNack_sn]
          simp [queueNack, hsn, htx, hq, nackEntry, hhas]
    · simp [queueNack, hsn, nackEntry]

/-- So has the entry that a report makes. -/
theorem nackEntry_sn {nacks : List StatusNack} {sn : Nat} {r : AmdRetx}
    (h : nackEntry st nacks sn = some r) : r.sn = sn := by
  unfold nackEntry at h
  split at h
  · cases h
  · obtain ⟨n, -, h⟩ := Option.bind_eq_some_iff.mp h
    obtain ⟨tx, -, rfl⟩ := Option.map_eq_some_iff.mp h
    exact retxOfNack_sn sn tx n

/-- The new entries are for sequence numbers that were walked over. -/
theorem mem_newEntries_sn {r : AmdRetx} (h : r ∈ newEntries st status j) :
    ∃ i, i < j ∧ r.sn = txSn st i := by
  obtain ⟨i, hi, hr⟩ := List.mem_filterMap.mp h
  exact ⟨i, List.mem_range.mp hi, nackEntry_sn hr⟩

/-- The first `j` sequence numbers leave no entry for the next one. -/
theorem retxQueueHasSn_afterReport (hA : st.vtA < 1024) (hj : j < 1024) :
    retxQueueHasSn (afterReport st status k j) (txSn st j) = retxQueueHasSn st (txSn st j) := by
  have hnew : (newEntries st status j).any (fun r => r.sn == txSn st j) = false := by
    rw [List.any_eq_false]
    intro r hr
    obtain ⟨i, hi, hsn⟩ := mem_newEntries_sn hr
    have hi' := txModBase_txSn hA (show i < 1024 by omega)
    have hj' := txModBase_txSn hA hj
    rw [hsn, beq_iff_eq]
    intro heq
    rw [heq, hj'] at hi'
    omega
  show (st.retxQueue ++ newEntries st status j).any _ = _
  rw [List.any_append, hnew, Bool.or_false]
  rfl

/-- The PDU at the next sequence number is as it was. -/
theorem reportWindow_next (hA : st.vtA < 1024) (hkj : k ≤ j) (hj : j < 1024) :
    reportWindow st status k j (txSn st j) = st.txWindow (txSn st j) := by
  have hbase := txModBase_txSn hA hj
  rw [reportWindow, if_neg (by omega), if_neg (by omega)]

/-- One more sequence number adds at most one entry. -/
theorem newEntries_succ (st : RlcAm) (status : StatusPdu) (j : Nat) :
    newEntries st status (j + 1)
      = newEntries st status j ++ (nackEntry st status.nacks (txSn st j)).toList := by
  rw [newEntries, List.range_succ, List.filterMap_append]
  rfl

/-- A sequence number that is not NACKed gets no entry. -/
theorem nackEntry_of_not_nacked {sn : Nat} (h : nacked status sn = false) :
    nackEntry st status.nacks sn = none := by
  have hfind : (status.nacks.find? fun n => n.nackSn == sn) = none := by
    rw [List.find?_eq_none]
    exact List.any_eq_false.mp h
  unfold nackEntry
  rw [hfind]
  split <;> rfl

/-- One round for a NACKed sequence number. -/
theorem nack_afterReport (hA : st.vtA < 1024) (hkj : k ≤ j) (hj : j < 1024)
    (hnack : nacked status (txSn st j) = true) :
    status.nacks.foldl (queueNack (txSn st j)) (afterReport st status k j)
      = afterReport st status k (j + 1) := by
  have hentry : nackEntry (afterReport st status k j) status.nacks (txSn st j)
      = nackEntry st status.nacks (txSn st j) := by
    unfold nackEntry
    rw [retxQueueHasSn_afterReport hA hj]
    show (if _ then none else Option.bind _ fun n =>
      (reportWindow st status k j (txSn st j)).map _) = _
    rw [reportWindow_next hA hkj hj]
  have hwindow : reportWindow st status k (j + 1) = reportWindow st status k j := by
    funext sn
    unfold reportWindow
    -- Only the NACKed sequence number is between the two bounds.
    have hiff : (sn < 1024 ∧ st.txModBase sn < j + 1 ∧ nacked status sn = false) ↔
        (sn < 1024 ∧ st.txModBase sn < j ∧ nacked status sn = false) := by
      constructor
      · rintro ⟨hsn, hlt, hn⟩
        refine ⟨hsn, ?_, hn⟩
        rcases Nat.lt_or_eq_of_le (Nat.le_of_lt_succ hlt) with hlt' | heq
        · exact hlt'
        · rw [(txModBase_eq_iff hA hj hsn).mp heq, hnack] at hn
          cases hn
      · rintro ⟨hsn, hlt, hn⟩
        exact ⟨hsn, by omega, hn⟩
    simp only [hiff]
  rw [foldl_queueNack, hentry]
  simp only [afterReport, hwindow, newEntries_succ, List.append_assoc]

/-- One round for an acknowledged sequence number behind a NACK: its PDU is marked. -/
theorem mark_afterReport (h : TxCovers st) (hkj : k ≤ j) (hj : j < outstanding st)
    (hnack : nacked status (txSn st j) = false) :
    ackPdu (txSn st j) false (afterReport st status k j) = afterReport st status k (j + 1) := by
  have hA := h.vtA_lt
  have hj' : j < 1024 := Nat.lt_trans hj (outstanding_lt st)
  obtain ⟨tx, htx⟩ := Option.isSome_iff_exists.mp (h.covers j hj)
  have hcur : (afterReport st status k j).txWindow (txSn st j) = some tx := by
    rw [← htx]
    exact reportWindow_next hA hkj hj'
  -- The description of the window for `j + 1` differs from that for `j` at this SN only.
  have hwindow : (reportWindow st status k j).insert (txSn st j) { tx with isAcked := true }
      = reportWindow st status k (j + 1) := by
    funext sn
    rw [Dict.insert_apply]
    by_cases hsn : sn = txSn st j
    · have hbase := txModBase_txSn hA hj'
      rw [if_pos hsn, hsn, reportWindow, if_neg (by omega),
        if_pos ⟨txSn_lt st j, by omega, hnack⟩, htx]
      rfl
    · rw [if_neg hsn]
      unfold reportWindow
      have hiff : (sn < 1024 ∧ st.txModBase sn < j + 1 ∧ nacked status sn = false) ↔
          (sn < 1024 ∧ st.txModBase sn < j ∧ nacked status sn = false) := by
        have hne : sn < 1024 → st.txModBase sn ≠ j := fun hlt heq =>
          hsn ((txModBase_eq_iff hA hj' hlt).mp heq)
        constructor
        · rintro ⟨hlt, hb, hn⟩
          have := hne hlt
          exact ⟨hlt, by omega, hn⟩
        · rintro ⟨hlt, hb, hn⟩
          exact ⟨hlt, by omega, hn⟩
      simp only [hiff]
  rw [ackPdu, hcur]
  show { afterReport st status k j with
      txWindow := (reportWindow st status k j).insert (txSn st j) { tx with isAcked := true } } = _
  rw [hwindow]
  simp only [afterReport, newEntries_succ, nackEntry_of_not_nacked hnack, Option.toList_none,
    List.append_nil]

/-- One round for an acknowledged sequence number before any NACK: its PDU leaves the window,
and `vt_a` moves along. -/
theorem release_afterReport (h : TxCovers st) (hj : j < outstanding st)
    (hnack : nacked status (txSn st j) = false) :
    ackPdu (txSn st j) true (afterReport st status j j)
      = afterReport st status (j + 1) (j + 1) := by
  have hA := h.vtA_lt
  have hj' : j < 1024 := Nat.lt_trans hj (outstanding_lt st)
  obtain ⟨tx, htx⟩ := Option.isSome_iff_exists.mp (h.covers j hj)
  have hcur : (afterReport st status j j).txWindow (txSn st j) = some tx := by
    rw [← htx]
    exact reportWindow_next hA (Nat.le_refl j) hj'
  -- The offset `j` joins those that are released, and no other SN has it.
  have hwindow : (reportWindow st status j j).erase (txSn st j)
      = reportWindow st status (j + 1) (j + 1) := by
    funext sn
    rw [Dict.erase_apply]
    unfold reportWindow
    by_cases hsn : sn = txSn st j
    · have hbase := txModBase_txSn hA hj'
      rw [if_pos hsn, hsn, if_pos ⟨txSn_lt st j, by omega⟩]
    · rw [if_neg hsn]
      have hne : sn < 1024 → st.txModBase sn ≠ j := fun hlt heq =>
        hsn ((txModBase_eq_iff hA hj' hlt).mp heq)
      by_cases hb : sn < 1024 ∧ st.txModBase sn < j
      · rw [if_pos hb, if_pos ⟨hb.1, by omega⟩]
      · have hb' : ¬ (sn < 1024 ∧ st.txModBase sn < j + 1) := by
          rintro ⟨hlt, hb'⟩
          have := hne hlt
          omega
        rw [if_neg hb, if_neg hb', if_neg (fun hc => hb ⟨hc.1, hc.2.1⟩),
          if_neg (fun hc => hb' ⟨hc.1, hc.2.1⟩)]
  rw [ackPdu, hcur]
  show { afterReport st status j j with
      txWindow := (reportWindow st status j j).erase (txSn st j)
      vtA := (txSn st j + 1) % 1024
      vtMs := ((st.vtMs + j) % 1024 + 1) % 1024 } = _
  rw [hwindow, txSn_succ, Nat.mod_add_mod]
  simp only [afterReport, newEntries_succ, nackEntry_of_not_nacked hnack, Option.toList_none,
    List.append_nil, Nat.add_assoc]

/-! ### The walk -/

/-- The loop condition at the offset `j`. -/
theorem afterReport_guard (h : TxCovers st) (hkj : k ≤ j) (hj : j ≤ reported st status) :
    ((afterReport st status k j).txModBase (txSn st j)
        < (afterReport st status k j).txModBase status.ackSn ∧
      (afterReport st status k j).txModBase (txSn st j)
        < (afterReport st status k j).txModBase (afterReport st status k j).vtS)
      ↔ j < reported st status := by
  have hlt := reported_lt st status
  have hbase := txModBase_txSn h.vtA_lt (show j < 1024 by omega)
  have hack : reported st status ≤ st.txModBase status.ackSn := Nat.min_le_left _ _
  have hout : reported st status ≤ st.txModBase st.vtS := Nat.min_le_right _ _
  have hvs : (afterReport st status k j).vtS = st.vtS := rfl
  rw [hvs, afterReport_txModBase (by omega), afterReport_txModBase (by omega),
    afterReport_txModBase (by omega), hbase]
  unfold reported outstanding at hj ⊢
  omega

/-- The walk behind the first NACK. The low edge of the window stays at the offset `k`. -/
theorem handleAcks_false (h : TxCovers st) :
    ∀ (rounds : Nat) {j : Nat}, k ≤ j → j ≤ reported st status →
      reported st status ≤ j + rounds →
      handleAcks status rounds (txSn st j) false (afterReport st status k j)
        = afterReport st status k (reported st status) := by
  have hlt := reported_lt st status
  intro rounds
  induction rounds with
  | zero =>
    intro j _ hj hr
    obtain rfl : j = reported st status := by omega
    rfl
  | succ rounds ih =>
    intro j hkj hj hr
    rw [handleAcks]
    -- The guard of the loop compares offsets from `vt_a`, which the walk does not move any more.
    simp only [afterReport_guard h hkj hj, Bool.false_and]
    rcases Nat.lt_or_eq_of_le hj with hj' | rfl
    · have hout : j < outstanding st := Nat.lt_of_lt_of_le hj' (Nat.min_le_right _ _)
      have hnext := ih (j := j + 1) (by omega) hj' (by omega)
      rw [if_pos hj', txSn_succ]
      split
      · rename_i hnack
        rw [nack_afterReport h.vtA_lt hkj (by omega) hnack]
        exact hnext
      · rename_i hnack
        rw [mark_afterReport h hkj hout (Bool.eq_false_iff.mpr hnack)]
        exact hnext
    · rw [if_neg (Nat.lt_irrefl _)]

/-- The walk before the first NACK. If all below `j` is acknowledged, the loop releases these
PDUs and goes on to the first NACK at the offset `k`, or to the end. -/
theorem handleAcks_true (h : TxCovers st) (hk : k ≤ reported st status)
    (hacked : ∀ i, i < k → nacked status (txSn st i) = false)
    (hstop : k < reported st status → nacked status (txSn st k) = true) :
    ∀ (rounds : Nat) {j : Nat}, j ≤ k → reported st status ≤ j + rounds →
      handleAcks status rounds (txSn st j) true (afterReport st status j j)
        = afterReport st status k (reported st status) := by
  have hlt := reported_lt st status
  intro rounds
  induction rounds with
  | zero =>
    intro j hjk hr
    obtain rfl : j = k := by omega
    obtain hkr : j = reported st status := by omega
    rw [← hkr]
    rfl
  | succ rounds ih =>
    intro j hjk hr
    rw [handleAcks]
    simp only [afterReport_guard h (Nat.le_refl j) (Nat.le_trans hjk hk), Bool.true_and]
    rcases Nat.lt_or_eq_of_le hjk with hjk' | rfl
    · -- An ACK below the first NACK.
      have hout : j < outstanding st :=
        Nat.lt_of_lt_of_le (Nat.lt_of_lt_of_le hjk' hk) (Nat.min_le_right _ _)
      have hnack := hacked j hjk'
      rw [if_pos (by omega), txSn_succ]
      unfold nacked at hnack
      simp only [hnack, Bool.not_false, Bool.false_eq_true, if_false]
      rw [release_afterReport h hout (hacked j hjk')]
      exact ih hjk' (by omega)
    · rcases Nat.lt_or_eq_of_le hk with hj' | hj'
      · -- The first NACK. From here on the low edge stays.
        have hnack := hstop hj'
        rw [if_pos hj', txSn_succ]
        unfold nacked at hnack
        simp only [hnack, Bool.not_true, if_true]
        rw [nack_afterReport h.vtA_lt (Nat.le_refl j) (by omega) (hstop hj')]
        exact handleAcks_false h rounds (Nat.le_succ j) hj' (by omega)
      · rw [if_neg (by omega), ← hj']

/-- The run of acknowledged sequence numbers ends where the report ends. -/
theorem ackRun_le (st : RlcAm) (status : StatusPdu) : ackRun st status ≤ reported st status := by
  have h : ackRun st status ≤ (List.range (reported st status)).length :=
    List.findIdx_le_length
  rwa [List.length_range] at h

/-- In the run nothing is NACKed. -/
theorem ackRun_acked (hj : j < ackRun st status) : nacked status (txSn st j) = false := by
  have h := List.not_of_lt_findIdx hj
  rwa [List.getElem_range] at h

/-- If the run ends before the report, a NACK ends it. -/
theorem ackRun_stop (h : ackRun st status < reported st status) :
    nacked status (txSn st (ackRun st status)) = true := by
  unfold ackRun at h ⊢
  have h' : (List.range (reported st status)).findIdx (fun j => nacked status (txSn st j))
      < (List.range (reported st status)).length := by
    rwa [List.length_range]
  have hp := List.findIdx_getElem (w := h')
  rwa [List.getElem_range] at hp

/-- The whole loop, under any bound that is not below the number of reported PDUs. -/
theorem handleAcks_eq (h : TxCovers st) {rounds : Nat} (hr : reported st status ≤ rounds) :
    handleAcks status rounds st.vtA true st
      = afterReport st status (ackRun st status) (reported st status) := by
  have hwalk := handleAcks_true h (ackRun_le st status) (fun _ => ackRun_acked) ackRun_stop
    rounds (Nat.zero_le _) (by omega)
  rwa [afterReport_zero h, txSn_zero h.vtA_lt] at hwalk

/-- A report stops the poll retransmit timer and then has the effect of the walk. -/
theorem handleStatus_eq (h : TxCovers st) (status : StatusPdu) :
    handleStatus st status
      = { afterReport st status (ackRun st status) (reported st status) with
          pollRetxTimeout := st.pollRetxTimeout.reset } := by
  have hreset : TxCovers { st with pollRetxTimeout := st.pollRetxTimeout.reset } :=
    { vtA_lt := h.vtA_lt, vtS_lt := h.vtS_lt, vtMs_lt := h.vtMs_lt, keys_lt := h.keys_lt
      covers := h.covers }
  have hlt := reported_lt { st with pollRetxTimeout := st.pollRetxTimeout.reset } status
  rw [handleStatus, handleAcks_eq hreset (by omega)]
  rfl

/-! ### The window after a report -/

/-- The PDUs of the run have left the window, and no others. -/
theorem reportWindow_isSome (sn : Nat) :
    (reportWindow st status k j sn).isSome
      ↔ (st.txWindow sn).isSome ∧ ¬ (sn < 1024 ∧ st.txModBase sn < k) := by
  unfold reportWindow
  split
  · rename_i h
    simp [h]
  · rename_i h
    split
    · rw [Option.isSome_map]
      exact ⟨fun hs => ⟨hs, h⟩, And.left⟩
    · exact ⟨fun hs => ⟨hs, h⟩, And.left⟩

/-- A report changes no header and no payload. -/
theorem reportWindow_subWindow (st : RlcAm) (status : StatusPdu) (k j : Nat) :
    SubWindow st.txWindow (reportWindow st status k j) := by
  intro sn tx' h
  unfold reportWindow at h
  split at h
  · cases h
  · split at h
    · obtain ⟨tx, htx, rfl⟩ := Option.map_eq_some_iff.mp h
      exact ⟨tx, htx, rfl, rfl⟩
    · exact ⟨tx', h, rfl, rfl⟩

/-- A sequence number in `tx_window` gets an entry exactly when it is NACKed and not queued. -/
theorem nackEntry_isSome {sn : Nat} (hsn : (st.txWindow sn).isSome) :
    (nackEntry st status.nacks sn).isSome = (nacked status sn && !retxQueueHasSn st sn) := by
  obtain ⟨tx, htx⟩ := Option.isSome_iff_exists.mp hsn
  unfold nackEntry
  rw [htx]
  cases hq : retxQueueHasSn st sn with
  | true => simp
  | false =>
    cases hfind : status.nacks.find? fun n => n.nackSn == sn with
    | none =>
      have hnack : nacked status sn = false :=
        List.any_eq_false.mpr (List.find?_eq_none.mp hfind)
      simp [hnack]
    | some n =>
      have hnack : nacked status sn = true :=
        List.any_eq_true.mpr ⟨n, List.mem_of_find?_eq_some hfind,
          List.find?_some (p := fun n : StatusNack => n.nackSn == sn) hfind⟩
      simp [hnack]

/-- The sequence numbers of the new entries, in order. -/
theorem newEntries_map_sn (h : TxCovers st) :
    ∀ {j : Nat}, j ≤ outstanding st → (newEntries st status j).map (·.sn)
      = ((List.range j).map (txSn st)).filter fun sn =>
          nacked status sn && !retxQueueHasSn st sn := by
  intro j
  induction j with
  | zero => intro _; rfl
  | succ j ih =>
    intro hj
    have hsome : (nackEntry st status.nacks (txSn st j)).isSome
        = (nacked status (txSn st j) && !retxQueueHasSn st (txSn st j)) :=
      nackEntry_isSome (h.covers j hj)
    rw [newEntries_succ, List.map_append, ih (by omega), List.range_succ, List.map_append,
      List.filter_append]
    congr 1
    cases hentry : nackEntry st status.nacks (txSn st j) with
    | none =>
      rw [hentry] at hsome
      simp [← hsome]
    | some r =>
      rw [hentry] at hsome
      simp [← hsome, nackEntry_sn hentry]

end

/-! ### The exact effect of a valid report -/

/-- The effect of a report whose longest run of acknowledged sequence numbers from `vt_a` on
has the length `k`. The run ends at ACK_SN or at the first NACK. -/
structure StatusEffect (st : RlcAm) (status : StatusPdu) (st' : RlcAm) (k : Nat) : Prop where
  k_le : k ≤ st.txModBase status.ackSn
  acked : ∀ j, j < k → nacked status (txSn st j) = false
  stop : k < st.txModBase status.ackSn → nacked status (txSn st k) = true
  vtA : st'.vtA = (st.vtA + k) % 1024
  vtMs : st'.vtMs = (st.vtMs + k) % 1024
  /-- The run is erased, and nothing else. -/
  erased : ∀ sn, (st'.txWindow sn).isSome ↔ (st.txWindow sn).isSome ∧ ∀ j, j < k → sn ≠ txSn st j
  /-- What stays has its header and payload. -/
  kept : SubWindow st.txWindow st'.txWindow
  /-- The old entries stay in front, and each NACKed sequence number below ACK_SN that was
  not queued gets one entry, in the order of the sequence numbers. -/
  queue : ∃ new, st'.retxQueue = st.retxQueue ++ new ∧
    new.map (·.sn) = ((List.range (st.txModBase status.ackSn)).map (txSn st)).filter fun sn =>
      nacked status sn && !retxQueueHasSn st sn

section
variable {st : RlcAm} {status : StatusPdu}

/-- The effect of the walk when ACK_SN is in `[vt_a, vt_s]`. -/
theorem statusEffect_afterReport (h : TxCovers st)
    (hin : st.txModBase status.ackSn ≤ outstanding st) :
    StatusEffect st status (afterReport st status (ackRun st status) (reported st status))
      (ackRun st status) := by
  have hrep : reported st status = st.txModBase status.ackSn := Nat.min_eq_left hin
  have hle := ackRun_le st status
  have hlt := reported_lt st status
  refine { k_le := hrep ▸ hle, acked := fun _ => ackRun_acked, stop := ?_, vtA := rfl,
           vtMs := rfl, erased := ?_, kept := reportWindow_subWindow st status _ _,
           queue := ⟨newEntries st status (reported st status), rfl, ?_⟩ }
  · rw [← hrep]
    exact ackRun_stop
  · intro sn
    show (reportWindow st status _ _ sn).isSome ↔ _
    rw [reportWindow_isSome]
    -- What is gone are the SNs with an offset below `ackRun`, one offset for each SN.
    refine and_congr_right fun hsome => ?_
    have hsn := h.keys_lt sn hsome
    constructor
    · intro hout j hj heq
      refine hout ⟨hsn, ?_⟩
      rw [(txModBase_eq_iff h.vtA_lt (by omega) hsn).mpr heq]
      exact hj
    · rintro hne ⟨-, hb⟩
      exact hne _ hb (txSn_txModBase h.vtA_lt hsn).symm
  · rw [hrep, newEntries_map_sn h hin]

/-- New entries keep the sequence numbers of the queue distinct. -/
theorem nodup_append_newEntries (h : TxCovers st) {j : Nat} (hj : j ≤ outstanding st)
    (hnodup : (st.retxQueue.map (·.sn)).Nodup) :
    ((st.retxQueue ++ newEntries st status j).map (·.sn)).Nodup := by
  have hlt := outstanding_lt st
  rw [List.map_append, newEntries_map_sn h hj]
  refine List.Nodup.append hnodup ?_ ?_
  · refine List.Nodup.filter _ (List.Nodup.map_on ?_ List.nodup_range)
    intro i hi i' hi' heq
    have hi := List.mem_range.mp hi
    have hi' := List.mem_range.mp hi'
    rw [← txModBase_txSn h.vtA_lt (show i < 1024 by omega), heq,
      txModBase_txSn h.vtA_lt (by omega)]
  · -- A queued sequence number gets no second entry.
    intro sn hold hnew
    obtain ⟨r, hr, rfl⟩ := List.mem_map.mp hold
    have hhas : retxQueueHasSn st r.sn = true :=
      List.any_eq_true.mpr ⟨r, hr, beq_self_eq_true _⟩
    have hpred := (List.mem_filter.mp hnew).2
    rw [hhas] at hpred
    simp at hpred

/-- A report with ACK_SN in `[vt_a, vt_s]` and any NACKs, in a state whose `tx_window` has
exactly the keys from `vt_a` up to `vt_s`. The loop ends after the reported sequence numbers,
so a larger bound on its rounds changes nothing. -/
theorem handleStatus_effect (hA : st.vtA < 1024) (hS : st.vtS < 1024) (hMs : st.vtMs < 1024)
    (hkeys : ∀ sn, (st.txWindow sn).isSome ↔ sn < 1024 ∧ st.txModBase sn < outstanding st)
    (hbound : outstanding st ≤ 512) (hnodup : (st.retxQueue.map (·.sn)).Nodup)
    (hin : st.txModBase status.ackSn ≤ outstanding st) :
    (∃ k, StatusEffect st status (handleStatus st status) k) ∧
    ((handleStatus st status).retxQueue.map (·.sn)).Nodup ∧
    ∀ rounds, 512 ≤ rounds →
      handleAcks status rounds st.vtA true { st with pollRetxTimeout := st.pollRetxTimeout.reset }
        = handleStatus st status := by
  have h : TxCovers st :=
    { vtA_lt := hA, vtS_lt := hS, vtMs_lt := hMs, keys_lt := fun sn hsn => ((hkeys sn).mp hsn).1
      covers := fun j hj => by
        have hlt := outstanding_lt st
        refine (hkeys _).mpr ⟨txSn_lt st j, ?_⟩
        rw [txModBase_txSn hA (by omega)]
        exact hj }
  have heffect := statusEffect_afterReport h hin
  rw [handleStatus_eq h status]
  refine ⟨⟨ackRun st status, ?_⟩, ?_, ?_⟩
  · exact { heffect with }
  · exact nodup_append_newEntries h (Nat.min_le_right _ _) hnodup
  · intro rounds hr
    -- The walk starts behind the reset of the poll timer, which is not part of the window.
    have hreset : TxCovers { st with pollRetxTimeout := st.pollRetxTimeout.reset } :=
      { vtA_lt := hA, vtS_lt := hS, vtMs_lt := hMs, keys_lt := h.keys_lt, covers := h.covers }
    have hrep : reported { st with pollRetxTimeout := st.pollRetxTimeout.reset } status ≤ 512 :=
      Nat.le_trans (Nat.min_le_right _ _) hbound
    rw [← handleStatus_eq h status, handleStatus]
    exact (handleAcks_eq hreset (Nat.le_trans hrep hr)).trans
      (handleAcks_eq hreset (by omega)).symm

end

/-- Three PDUs of one byte are outstanding. -/
def threeSent : RlcAm :=
  { vtS := 3
    txWindow := fun sn => if sn < 3 then some { header := { sn := sn }, buf := [7] } else none }

/-- A report that acknowledges the first of three PDUs and NACKs the others, out of order and
one of them twice. -/
theorem handleStatus_effect_threeSent :
    (∃ k, StatusEffect threeSent { ackSn := 3, nacks := [{ nackSn := 2 }, { nackSn := 1 },
        { nackSn := 2 }] } (handleStatus threeSent { ackSn := 3, nacks := [{ nackSn := 2 },
          { nackSn := 1 }, { nackSn := 2 }] }) k) ∧
    (handleStatus threeSent { ackSn := 3, nacks := [{ nackSn := 2 }, { nackSn := 1 },
      { nackSn := 2 }] }).retxQueue.map (·.sn) = [1, 2] := by
  refine ⟨(handleStatus_effect (by decide) (by decide) (by decide) ?_ (by decide) (by decide)
    (by decide)).1, by decide⟩
  intro sn
  have hout : outstanding threeSent = 3 := by decide
  rw [hout]
  simp only [threeSent, RlcAm.txModBase, modDist]
  split
  · simp only [Option.isSome_some, true_iff]
    omega
  · simp only [Option.isSome_none, Bool.false_eq_true, false_iff]
    omega

/-! ### Every reachable state -/

section
variable {st st' : RlcAm}

/-- Nothing is outstanding in a configured entity. -/
theorem txCovers_init (cnfg : AmConfig) : TxCovers (configure {} cnfg) :=
  txCovers_of_ok (txWindowOk_init cnfg)

/-- Only the keys of `tx_window` matter. -/
theorem TxCovers.of_keys (h : TxCovers st) (hA : st'.vtA = st.vtA) (hMs : st'.vtMs = st.vtMs)
    (hS : st'.vtS = st.vtS) (hw : ∀ sn, (st'.txWindow sn).isSome = (st.txWindow sn).isSome) :
    TxCovers st' := by
  refine { vtA_lt := hA ▸ h.vtA_lt, vtS_lt := hS ▸ h.vtS_lt, vtMs_lt := hMs ▸ h.vtMs_lt,
           keys_lt := ?_, covers := ?_ }
  · intro sn hsn
    rw [hw] at hsn
    exact h.keys_lt sn hsn
  · unfold outstanding RlcAm.txModBase txSn
    intro j hj
    rw [hA, hS] at hj
    rw [hA, hw]
    exact h.covers j hj

/-- The condition is about the transmit half only. -/
theorem TxCovers.of_txSame (h : TxCovers st) (hs : TxSame st st') : TxCovers st' :=
  h.of_keys hs.vtA hs.vtMs hs.vtS fun sn => by rw [hs.txWindow]

/-- The PDUs above the run are still there after a report. -/
theorem txCovers_handleStatus (h : TxCovers st) (status : StatusPdu) :
    TxCovers (handleStatus st status) := by
  have hlt := outstanding_lt st
  have hle : ackRun st status ≤ outstanding st :=
    Nat.le_trans (ackRun_le st status) (Nat.min_le_right _ _)
  rw [handleStatus_eq h]
  refine { vtA_lt := txSn_lt st _, vtS_lt := h.vtS_lt, vtMs_lt := Nat.mod_lt _ (by decide),
           keys_lt := ?_, covers := ?_ }
  · intro sn hsn
    exact h.keys_lt sn ((reportWindow_isSome sn).mp hsn).1
  · intro j hj
    have hout : outstanding st - ackRun st status
        = (afterReport st status (ackRun st status) (reported st status)).txModBase st.vtS :=
      (afterReport_txModBase hle).symm
    have hj' : j < outstanding st - ackRun st status := hout ▸ hj
    have hsn : (txSn st (ackRun st status) + j) % 1024 = txSn st (ackRun st status + j) := by
      unfold txSn
      rw [Nat.mod_add_mod, Nat.add_assoc]
    show (reportWindow st status _ _ ((txSn st (ackRun st status) + j) % 1024)).isSome
    rw [hsn, reportWindow_isSome, txModBase_txSn h.vtA_lt (by omega)]
    exact ⟨h.covers _ (by omega), by omega⟩

/-- A new PDU is put at `vt_s`. -/
theorem txCovers_buildDataPdu (h : TxCovers st) (now n : Nat) :
    TxCovers (buildDataPdu st now n).1 := by
  have hA := h.vtA_lt
  have hS := h.vtS_lt
  cases hpdu : (buildDataPdu st now n).2 with
  | none =>
    rw [buildDataPdu_none hpdu]
    exact h
  | some pdu =>
    obtain ⟨_, _, _, _, hst⟩ := buildDataPdu_frame hpdu
    rw [hst]
    refine { vtA_lt := hA, vtS_lt := Nat.mod_lt _ (by decide), vtMs_lt := h.vtMs_lt,
             keys_lt := ?_, covers := ?_ }
    · intro sn hsn
      simp only [Dict.insert_apply] at hsn
      split at hsn
      · rename_i heq
        rw [heq]
        exact hS
      · exact h.keys_lt sn hsn
    · intro j hj
      have hcov := h.covers j
      show (st.txWindow.insert st.vtS _ (txSn st j)).isSome
      rw [Dict.insert_apply]
      split
      · rfl
      · -- Any other sequence number below the new `vt_s` was outstanding before.
        rename_i hne
        refine hcov ?_
        have hj' : j < modDist 1024 ((st.vtS + 1) % 1024) st.vtA := hj
        unfold outstanding RlcAm.txModBase
        unfold txSn at hne
        unfold modDist at hj' ⊢
        omega

/-- `read_pdu` keeps it: a new PDU is put in `tx_window` at `vt_s`. -/
theorem txCovers_readPdu {L : SrslteBit} {now n : Nat} {out : Bytes} (h : TxCovers st)
    (hread : readPdu L st now n = some (st', out)) : TxCovers st' := by
  rcases readPdu_cases hread with
    ⟨-, rfl, -⟩ | ⟨-, -, retx, tx, rest, ⟨-, htx⟩, hst⟩ | ⟨-, -, rfl, -⟩
  · exact h.of_txSame (buildStatusPdu_txSame L st now n)
  · have hkeys := txKeysSame_retx htx (hst.imp (·.2.1) (·.2.2.1))
    exact h.of_keys hkeys.vtA hkeys.vtMs hkeys.vtS hkeys.keys
  · exact txCovers_buildDataPdu h now n

/-- So does every call. -/
theorem txCovers_step {L : SrslteBit} {c : AmCall} (h : TxCovers st)
    (hstep : amStep L st c = some st') : TxCovers st' := by
  cases amStep_txStep hstep with
  | writeSdu => exact h.of_keys rfl rfl rfl fun _ => rfl
  | readPdu hread => exact txCovers_readPdu h hread
  | status _ _ => exact txCovers_handleStatus h _
  | receive _ _ hsame => exact h.of_txSame hsame
  | reset =>
    refine { vtA_lt := by simp [reset], vtS_lt := by simp [reset], vtMs_lt := by simp [reset]
             keys_lt := by simp [reset], covers := ?_ }
    -- A reset entity has nothing outstanding, so nothing has to be covered.
    intro j hj
    have hzero : outstanding (reset st) = 0 := by
      simp [outstanding, RlcAm.txModBase, reset]
    omega

/-- In every state that an entity can reach, the outstanding PDUs are in `tx_window`. -/
theorem txCovers_run {L : SrslteBit} {cnfg : AmConfig} {calls : List AmCall}
    (hrun : runTo (amStep L) (configure {} cnfg) calls = some st) : TxCovers st :=
  runTo_inv (I := TxCovers) (K := fun _ => True) (fun _ _ _ h _ hstep => txCovers_step h hstep)
    (fun _ _ => trivial) (txCovers_init cnfg) hrun

end

end SrsUE.Proofs.Rlc
