import SrsUE.Proofs.Rlc.AmStatusEffect

/-!
# `SrsUE.Proofs.Rlc.AmReportValidity`: reports that acknowledge nothing

A control PDU of another type than STATUS, and a status PDU whose ACK_SN is outside
`[vt_a, vt_s]`, acknowledge nothing. `handle_control_pdu` makes no difference between them and
a valid report. A PDU of another type leaves the report as constructed, which reads as
"everything below 0 is received". An ACK_SN from before `vt_a` looks like one far ahead of
`vt_s`, and so acknowledges all that is outstanding.

`controlPdu_kept_iff` says when such a PDU does no harm: there is nothing outstanding for it
to release, or the report repeats what the entity knows (`NothingNew`).
-/

set_option autoImplicit false

namespace SrsUE.Proofs.Rlc

open SrsUE.Lib
open SrsUE.Rlc

/-- The CPT field of a control PDU. -/
def readCpt (L : SrslteBit) (payload : Bytes) : Option Nat := do
  let (_, bits) ← readField L 1 (L.unpackVector payload)
  let (cpt, _) ← readField L 3 bits
  some cpt

/-- The control PDU is no valid report for the state: it is no status PDU, or its ACK_SN is
outside `[vt_a, vt_s]`. -/
def InvalidReport (L : SrslteBit) (st : RlcAm) (payload : Bytes) : Prop :=
  readCpt L payload ≠ some 0 ∨
    ∃ status, readStatusPdu L payload = some status ∧ outstanding st < st.txModBase status.ackSn

/-- The transmit window and the retransmission queue are unchanged. -/
structure TxKept (st st' : RlcAm) : Prop where
  txWindow : st'.txWindow = st.txWindow
  vtA : st'.vtA = st.vtA
  vtMs : st'.vtMs = st.vtMs
  retxQueue : st'.retxQueue = st.retxQueue

/-- The report says nothing new about the PDUs it reports: the first one is NACKed, every
NACKed one is queued already, and every other one is marked as acknowledged already. -/
def NothingNew (st : RlcAm) (status : StatusPdu) : Prop :=
  ∀ j, j < reported st status →
    nacked status st.vtA = true ∧
    (nacked status (txSn st j) = true → retxQueueHasSn st (txSn st j) = true) ∧
    (nacked status (txSn st j) = false →
      ∀ tx, st.txWindow (txSn st j) = some tx → tx.isAcked = true)

/-- When an invalid report does no harm: a control PDU of another type needs `vt_a` at 0 or
nothing outstanding, a status PDU has to say nothing new. -/
structure HarmlessReport (L : SrslteBit) (st : RlcAm) (payload : Bytes) : Prop where
  other : readCpt L payload ≠ some 0 → st.vtA = 0 ∨ outstanding st = 0
  status : readCpt L payload = some 0 → ∀ status, readStatusPdu L payload = some status →
    outstanding st < st.txModBase status.ackSn → NothingNew st status

section
variable {st : RlcAm} {status : StatusPdu}

/-! ### Which reports change nothing -/

/-- A report queues nothing when all that it NACKs is queued. -/
theorem newEntries_eq_nil_iff (h : TxCovers st) {j : Nat} (hj : j ≤ outstanding st) :
    newEntries st status j = [] ↔
      ∀ i, i < j → nacked status (txSn st i) = true → retxQueueHasSn st (txSn st i) = true := by
  rw [newEntries, List.filterMap_eq_nil_iff]
  constructor
  · intro hnone i hi hnack
    have hsome : (nackEntry st status.nacks (txSn st i)).isSome
        = (nacked status (txSn st i) && !retxQueueHasSn st (txSn st i)) :=
      nackEntry_isSome (h.covers i (by omega))
    rw [hnone i (List.mem_range.mpr hi), hnack] at hsome
    simpa using hsome
  · intro hq i hi
    have hi := List.mem_range.mp hi
    have hsome : (nackEntry st status.nacks (txSn st i)).isSome
        = (nacked status (txSn st i) && !retxQueueHasSn st (txSn st i)) :=
      nackEntry_isSome (h.covers i (by omega))
    rw [← Option.not_isSome_iff_eq_none, hsome]
    intro hboth
    rw [Bool.and_eq_true, Bool.not_eq_true'] at hboth
    rw [hq i hi hboth.1] at hboth
    exact Bool.noConfusion hboth.2

/-- The window is unchanged by marks on PDUs that carry them. -/
theorem reportWindow_eq_iff (hA : st.vtA < 1024) {j : Nat} (hj : j ≤ 1024) :
    reportWindow st status 0 j = st.txWindow ↔
      ∀ i, i < j → nacked status (txSn st i) = false →
        ∀ tx, st.txWindow (txSn st i) = some tx → tx.isAcked = true := by
  constructor
  · intro heq i hi hnack tx htx
    -- At an SN that the report acknowledges the new window has a mark.
    have hat := congrFun heq (txSn st i)
    have hbase := txModBase_txSn hA (show i < 1024 by omega)
    rw [reportWindow, if_neg (by omega), if_pos ⟨txSn_lt st i, by omega, hnack⟩, htx] at hat
    have htx' : { tx with isAcked := true } = tx := Option.some.inj hat
    rw [← htx']
  · intro hmarked
    funext sn
    rw [reportWindow, if_neg (by omega)]
    split
    · rename_i hsn
      have hat := txSn_txModBase hA hsn.1
      cases htx : st.txWindow sn with
      | none => rfl
      | some tx =>
        have hack := hmarked _ hsn.2.1 (by rw [hat]; exact hsn.2.2) tx (by rw [hat]; exact htx)
        show some { tx with isAcked := true } = some tx
        rw [← hack]
    · rfl

/-- A report leaves the window and the queue alone exactly when it says nothing new. -/
theorem handleStatus_kept_iff (h : TxCovers st) (status : StatusPdu) :
    TxKept st (handleStatus st status) ↔ NothingNew st status := by
  have hA := h.vtA_lt
  have hlt := reported_lt st status
  have hle := ackRun_le st status
  have hout : reported st status ≤ outstanding st := Nat.min_le_right _ _
  rw [handleStatus_eq h]
  constructor
  · intro hkept j hj
    -- `vt_a` did not move, so the run is empty and `vt_a` itself is NACKed.
    have hvtA : txSn st (ackRun st status) = st.vtA := hkept.vtA
    have hzero : ackRun st status = 0 := by
      rw [← txModBase_txSn hA (show ackRun st status < 1024 by omega), hvtA, RlcAm.txModBase,
        modDist_self (by decide)]
    have hnack : nacked status st.vtA = true := by
      have hstop := ackRun_stop (show ackRun st status < reported st status by omega)
      rwa [hvtA] at hstop
    have hqueue : newEntries st status (reported st status) = [] :=
      List.append_right_eq_self.mp hkept.retxQueue
    have hwindow : reportWindow st status 0 (reported st status) = st.txWindow := by
      have hw := hkept.txWindow
      simp only [afterReport, hzero] at hw
      exact hw
    exact ⟨hnack, (newEntries_eq_nil_iff h hout).mp hqueue j hj,
      (reportWindow_eq_iff hA (by omega)).mp hwindow j hj⟩
  · intro hnew
    have hzero : ackRun st status = 0 := by
      rcases Nat.eq_zero_or_pos (ackRun st status) with h0 | hpos
      · exact h0
      · have hacked := ackRun_acked hpos
        rw [txSn_zero hA, (hnew 0 (by omega)).1] at hacked
        cases hacked
    have hwindow := (reportWindow_eq_iff hA (by omega)).mpr fun j hj => (hnew j hj).2.2
    have hqueue := (newEntries_eq_nil_iff h hout).mpr fun j hj => (hnew j hj).2.1
    rw [hzero]
    refine { txWindow := hwindow, vtA := txSn_zero hA, vtMs := ?_, retxQueue := ?_ }
    · exact Nat.mod_eq_of_lt h.vtMs_lt
    · show st.retxQueue ++ newEntries st status (reported st status) = st.retxQueue
      rw [hqueue, List.append_nil]

/-- The report as constructed acknowledges the sequence numbers from `vt_a` up to 0. -/
theorem nothingNew_default (h : TxCovers st) :
    NothingNew st {} ↔ st.vtA = 0 ∨ outstanding st = 0 := by
  have hA := h.vtA_lt
  have hbase : st.txModBase 0 = 0 ↔ st.vtA = 0 := by
    unfold RlcAm.txModBase modDist
    omega
  have hrep : reported st {} = min (st.txModBase 0) (outstanding st) := rfl
  constructor
  · intro hnew
    have hzero : reported st {} = 0 := by
      rcases Nat.eq_zero_or_pos (reported st {}) with h0 | hpos
      · exact h0
      · exact absurd (hnew 0 hpos).1 (by simp [nacked])
    rw [← hbase]
    omega
  · intro hor j hj
    rw [← hbase] at hor
    omega

end

/-! ### Control PDUs on the wire -/

section
variable {L : SrslteBit} {b0 : UInt8} {rest : Bytes}

/-- The first bit of a control PDU reads as 0. -/
theorem readField_dc (L : SrslteBit) (rest : Bytes) (hctrl : isControlPdu b0 = true) :
    ∃ bits, readField L 1 (L.unpackVector (b0 :: rest)) = some (0, bits) := by
  have hhead := L.head_unpackVector b0 rest
  have hlen := L.length_unpackVector (b0 :: rest)
  have hbit : b0.toNat.testBit 7 = false := by
    have hctrl : (b0.toNat >>> 7) &&& 0x01 = 0 := by simpa [isControlPdu, DcField.toNat] using hctrl
    rw [Nat.testBit_eq_decide_div_mod_eq]
    rw [Nat.and_one_is_mod, Nat.shiftRight_eq_div_pow] at hctrl
    simp [hctrl]
  have hpack : L.pack [false] = 0 := by
    have h := L.pack_unpack 0 1
    rwa [L.unpack_eq] at h
  cases hbits : L.unpackVector (b0 :: rest) with
  | nil =>
    rw [hbits] at hhead
    cases hhead
  | cons b bits =>
    rw [hbits, hbit] at hhead
    obtain rfl : b = false := Option.some.inj hhead
    refine ⟨bits, ?_⟩
    simp [readField, hpack]

/-- A control PDU of another type leaves the report as constructed. -/
theorem readStatusPdu_other (hctrl : isControlPdu b0 = true) {status : StatusPdu}
    (hread : readStatusPdu L (b0 :: rest) = some status)
    (hcpt : readCpt L (b0 :: rest) ≠ some 0) : status = {} := by
  obtain ⟨bits, hdc⟩ := readField_dc L rest hctrl
  unfold readStatusPdu at hread
  unfold readCpt at hcpt
  simp only [hdc, Option.bind_eq_bind, Option.bind_some, DcField.toNat, ne_eq,
    not_true_eq_false, if_false] at hread hcpt
  cases hfield : readField L 3 bits with
  | none =>
    rw [hfield] at hread
    cases hread
  | some r =>
    rw [hfield] at hread hcpt
    have hne : r.1 ≠ 0 := fun h0 => hcpt (by simp [h0])
    simp only [Option.bind_some, hne, not_false_eq_true, if_true] at hread
    exact (Option.some.inj hread).symm

/-- What an entity does with a control PDU that it can read, in any state it can reach: an
invalid report leaves the transmit window, its edges and the retransmission queue alone
exactly when it is harmless. -/
theorem controlPdu_kept_iff {cnfg : AmConfig} {calls : List AmCall} {st st' : RlcAm} {now : Nat}
    (hrun : runTo (amStep L) (configure {} cnfg) calls = some st)
    (hctrl : isControlPdu b0 = true) (hstep : writePdu L st now (b0 :: rest) = some st') :
    (InvalidReport L st (b0 :: rest) → TxKept st st') ↔
      (InvalidReport L st (b0 :: rest) → HarmlessReport L st (b0 :: rest)) := by
  have h := txCovers_run hrun
  rw [writePdu, if_pos hctrl] at hstep
  obtain ⟨status, hread, rfl⟩ := Option.map_eq_some_iff.mp hstep
  refine imp_congr_right fun hinvalid => ?_
  rw [handleStatus_kept_iff h]
  by_cases hcpt : readCpt L (b0 :: rest) = some 0
  · -- A status PDU, whose ACK_SN is outside the interval.
    have hout : outstanding st < st.txModBase status.ackSn := by
      rcases hinvalid with hne | ⟨status', hread', hout⟩
      · exact absurd hcpt hne
      · rw [hread] at hread'
        obtain rfl := Option.some.inj hread'
        exact hout
    constructor
    · intro hnew
      refine { other := fun hne => absurd hcpt hne, status := fun _ status' hread' _ => ?_ }
      rw [hread] at hread'
      obtain rfl := Option.some.inj hread'
      exact hnew
    · exact fun hharm => hharm.status hcpt status hread hout
  · obtain rfl := readStatusPdu_other hctrl hread hcpt
    rw [nothingNew_default h]
    exact ⟨fun hor => { other := fun _ => hor, status := fun heq => absurd heq hcpt },
      fun hharm => hharm.other hcpt⟩

end

/-- Two PDUs are sent and acknowledged. -/
def twoAcknowledged : List AmCall :=
  [.writeSdu [7], .readPdu 0 3, .writeSdu [7], .readPdu 0 3, .writePdu 0 [0x00, 0x08]]

/-- A status PDU with ACK_SN 1, which was overtaken, changes nothing while nothing is
outstanding. -/
theorem controlPdu_kept_overtaken :
    ∃ st st', runTo (amStep msbFirst) (configure {} {}) twoAcknowledged = some st ∧
      writePdu msbFirst st 0 [0x00, 0x04] = some st' ∧ InvalidReport msbFirst st [0x00, 0x04] ∧
      TxKept st st' := by
  have hrun : ((runTo (amStep msbFirst) (configure {} {}) twoAcknowledged).bind fun st =>
      (writePdu msbFirst st 0 [0x00, 0x04]).map fun _ =>
        (outstanding st, (readStatusPdu msbFirst [0x00, 0x04]).map
          fun status => st.txModBase status.ackSn)) = some (0, some 1023) := by
    decide +kernel
  obtain ⟨st, hst, hrun⟩ := Option.bind_eq_some_iff.mp hrun
  obtain ⟨st', hst', heq⟩ := Option.map_eq_some_iff.mp hrun
  obtain ⟨hout, hack⟩ := Prod.mk.inj heq
  obtain ⟨status, hread, hdist⟩ := Option.map_eq_some_iff.mp hack
  have hinvalid : InvalidReport msbFirst st [0x00, 0x04] :=
    .inr ⟨status, hread, by rw [hout, hdist]; decide⟩
  refine ⟨st, st', hst, hst', hinvalid, (controlPdu_kept_iff hst (by decide) hst').mpr ?_ hinvalid⟩
  refine fun _ => { other := fun _ => .inr hout, status := fun _ status' _ _ j hj => ?_ }
  rw [reported, hout, Nat.min_zero] at hj
  exact absurd hj (Nat.not_lt_zero j)

/-- Two PDUs are sent and acknowledged, and a third one is sent. -/
def thirdOutstanding : List AmCall :=
  [.writeSdu [7], .readPdu 0 3, .writeSdu [7], .readPdu 0 3, .writePdu 0 [0x00, 0x08],
    .writeSdu [7], .readPdu 0 3]

/-- A status PDU with ACK_SN 1, from before the second PDU was received, arrives now. -/
theorem thirdOutstanding_delayed :
    ∃ st st', runTo (amStep msbFirst) (configure {} {}) thirdOutstanding = some st ∧
      writePdu msbFirst st 0 [0x00, 0x04] = some st' ∧ st.vtA = 2 ∧ outstanding st = 1 ∧
      InvalidReport msbFirst st [0x00, 0x04] ∧ st'.vtA = 3 := by
  have hrun : ((runTo (amStep msbFirst) (configure {} {}) thirdOutstanding).bind fun st =>
      (writePdu msbFirst st 0 [0x00, 0x04]).map fun st' =>
        (st.vtA, st.vtS, (readStatusPdu msbFirst [0x00, 0x04]).map (·.ackSn), st'.vtA))
      = some (2, 3, some 1, 3) := by
    decide +kernel
  obtain ⟨st, hst, hrun⟩ := Option.bind_eq_some_iff.mp hrun
  obtain ⟨st', hst', heq⟩ := Option.map_eq_some_iff.mp hrun
  simp only [Prod.mk.injEq] at heq
  obtain ⟨hA, hS, hack, hA'⟩ := heq
  obtain ⟨status, hread, hsn⟩ := Option.map_eq_some_iff.mp hack
  have hout : outstanding st = 1 := by
    rw [outstanding, RlcAm.txModBase, hA, hS]
    decide
  refine ⟨st, st', hst, hst', hA, hout, .inr ⟨status, hread, ?_⟩, hA'⟩
  rw [hout, RlcAm.txModBase, hsn, hA]
  decide

/-- The delayed status PDU releases the third PDU, which no one has acknowledged. -/
theorem controlPdu_delayed_releases :
    ¬ ∀ (cnfg : AmConfig) (calls : List AmCall) (st st' : RlcAm) (now : Nat) (b0 : UInt8)
        (rest : Bytes),
      runTo (amStep msbFirst) (configure {} cnfg) calls = some st → outstanding st ≤ 512 →
      isControlPdu b0 = true → writePdu msbFirst st now (b0 :: rest) = some st' →
      InvalidReport msbFirst st (b0 :: rest) → TxKept st st' := by
  intro hall
  obtain ⟨st, st', hst, hst', hA, hout, hinvalid, hA'⟩ := thirdOutstanding_delayed
  have hkept := hall {} thirdOutstanding st st' 0 0x00 [0x04] hst (by omega) (by decide) hst'
    hinvalid
  have hvtA := hkept.vtA
  omega

end SrsUE.Proofs.Rlc
