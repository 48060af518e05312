import SrsUE.Lib.Run
import SrsUE.Proofs.Rlc.AmDelivery
import SrsUE.Proofs.Rlc.AmStatusExchange

/-!
# `SrsUE.Proofs.Rlc.AmStatusReport`: the content of the reports

`prepare_status` tells the truth about the whole history of reception
(`prepareStatus_truthful`): it NACKs the indices from `vr_r` up to `vr_ms` that have never
arrived, and everything else below `vr_ms` has arrived.

The report that goes out is another matter. `prepare_status` runs inside the buffer state queries,
where MAC asks for the size of the report, and `read_pdu` sends what it left behind. `ReportTrace`
keeps, next to the entity, the state in which its last report since `reset` was computed, and
`readPdu_sendsReport` says that this report is the one that is sent. It is the current one as long
as `vr_r`, `vr_ms` and `rx_window` are as they were at the query. Nothing is said about a report
that is sent between `reset` and the first query that computes one.
-/

set_option autoImplicit false

namespace SrsUE.Proofs.Rlc

open SrsUE.Lib
open SrsUE.Rlc

/-! ### The computed report -/

/-- The absolute index of a sequence number not below `vr_r`. -/
def RxTrace.index (t : RxTrace) (sn : Nat) : Nat := t.r + t.st.rxModBase sn

/-- The report that an entity computes, against all that it has ever received. The NACKs are
the missing indices below that of `vr_ms`, each once and in increasing order. -/
theorem prepareStatus_truthful {L : SrslteBit} {S : AmdStream} {t : RxTrace}
    (h : RxReach L S t) :
    (prepareStatus t.st).status.ackSn = t.index t.st.vrMs % 1024 ∧
    (prepareStatus t.st).status.nacks
      = ((List.range' t.r (t.index t.st.vrMs - t.r)).filter fun i =>
          !decide (i ∈ t.received)).map (fun i => { nackSn := i % 1024 }) ∧
    (∀ i, i < t.index t.st.vrMs → i ∈ t.received ∨
      t.r ≤ i ∧ ∃ n ∈ (prepareStatus t.st).status.nacks, n.nackSn = i % 1024) ∧
    (prepareStatus t.st).status.nacks.length ≤ 512 := by
  obtain ⟨ms, hh, inv⟩ := (rxReach_inv h).window
  have hrms := inv.r_le_ms
  have hmsh := inv.ms_le_h
  have hhle := inv.h_le
  have hindex : t.index t.st.vrMs = ms := by
    rw [RxTrace.index, inv.rxModBase_vrMs]
    omega
  have hnacks := prepareStatus_nacks inv
  rw [hindex]
  refine ⟨inv.vrMs, hnacks, ?_, (prepareStatus_statusAt inv).length_le⟩
  intro i hi
  -- Everything below `vr_r` has been received, and above it the NACKs list what is missing.
  rcases Nat.lt_or_ge i t.r with hlt | hge
  · exact .inl (inv.below i hlt)
  · by_cases hrecv : i ∈ t.received
    · exact .inl hrecv
    · refine .inr ⟨hge, { nackSn := i % 1024 }, ?_, rfl⟩
      rw [hnacks]
      refine List.mem_map.mpr ⟨i, List.mem_filter.mpr ⟨?_, by simpa using hrecv⟩, rfl⟩
      exact List.mem_range'_1.mpr ⟨hge, by omega⟩

/-- The second PDU arrives and the first does not. The reordering timer expires. -/
theorem prepareStatus_truthful_firstLost : ∃ t, RxReach msbFirst straddling t ∧
    t.received = [1] ∧ (prepareStatus t.st).status.ackSn = 2 ∧
    (prepareStatus t.st).status.nacks = [{ nackSn := 0 }] := by
  have h₁ := straddling_arrival (.init {}) 1 (by decide) (by decide)
  have h₂ := RxReach.call (.getBufferState 1) h₁ rfl rfl
  obtain ⟨hack, hnacks, -⟩ := prepareStatus_truthful h₂
  refine ⟨_, h₂, rfl, ?_, ?_⟩
  · rw [hack]
    decide +kernel
  · rw [hnacks]
    decide +kernel

/-! ### The report that is sent -/

/-- The state in which a call computes a report. Both queries check the reordering timer
first, and compute a report when one is due. -/
def reportState (st : RlcAm) : AmCall → Option RlcAm
  | .getBufferState now | .getTotalBufferState now =>
    if (checkReorderingTimeout st now).doStatus
        && !statusProhibited (checkReorderingTimeout st now) now then
      some (checkReorderingTimeout st now)
    else none
  | _ => none

/-- An entity, and the state in which its last report since `reset` was computed. -/
structure ReportTrace where
  st : RlcAm
  prepared : Option RlcAm := none

/-- A call, with the record of the last report. -/
def reportStep (L : SrslteBit) (t : ReportTrace) (c : AmCall) : Option ReportTrace :=
  (amStep L t.st c).map fun st' =>
    { st := st'
      prepared := if c = .reset then none else (reportState t.st c).or t.prepared }

/-- The last report that was computed. Before the first one, and without `reset`, it is the
report of the constructor, with ACK_SN 0 and no NACKs. -/
def ReportTrace.report (t : ReportTrace) : StatusPdu :=
  (t.prepared.map fun st => (prepareStatus st).status).getD {}

section
variable {L : SrslteBit} {st st' : RlcAm}

/-- A call leaves the report alone, unless it computes a new one. -/
theorem amStep_report {c : AmCall} (hstep : amStep L st c = some st') :
    st'.status = ((reportState st c).map fun st₁ => (prepareStatus st₁).status).getD st.status := by
  have hcheck : ∀ now, (checkReorderingTimeout st now).status = st.status := by
    intro now
    obtain ⟨_, _, _, _, hf⟩ := checkReorderingTimeout_frame st now
    rw [hf]
  cases c with
  | writeSdu sdu =>
    obtain ⟨-, rfl⟩ := writeSdu_cases hstep
    rfl
  | readPdu now n =>
    obtain ⟨⟨st₁, out⟩, hread, rfl⟩ := Option.map_eq_some_iff.mp hstep
    exact (readPdu_setupSame hread).status
  | writePdu now payload =>
    rcases writePdu_cases hstep with
      ⟨-, rfl⟩ | ⟨status, -, rfl⟩ | ⟨hdr, data, -, ⟨-, rfl⟩ | ⟨-, rfl⟩⟩
    · rfl
    · exact (handleStatus_setupSame st status).status
    · exact (handleDataPduSegment_setupSame st now data hdr).status
    · exact (handleDataPdu_setupSame st now data hdr).status
  | getBufferState now =>
    obtain rfl := Option.some.inj hstep
    -- The report is computed behind `check_reordering_timeout`, which leaves `status` alone.
    unfold getBufferState reportState
    simp only
    split
    · rfl
    · split
      · exact hcheck now
      · exact hcheck now
  | getTotalBufferState now =>
    obtain rfl := Option.some.inj hstep
    unfold getTotalBufferState reportState
    simp only
    split
    · rfl
    · exact hcheck now
  | reset =>
    obtain rfl := Option.some.inj hstep
    rfl

/-- The stored report is the last one that was computed since `reset`. -/
theorem reportStep_prepared {t t' : ReportTrace} {c : AmCall}
    (h : ∀ st₁, t.prepared = some st₁ → t.st.status = (prepareStatus st₁).status)
    (hstep : reportStep L t c = some t') :
    ∀ st₁, t'.prepared = some st₁ → t'.st.status = (prepareStatus st₁).status := by
  obtain ⟨st', hst', rfl⟩ := Option.map_eq_some_iff.mp hstep
  intro st₁ hprep
  show st'.status = (prepareStatus st₁).status
  rw [amStep_report hst']
  dsimp only at hprep
  split at hprep
  · cases hprep
  · cases hstate : reportState t.st c with
    | none =>
      rw [hstate, Option.none_or] at hprep
      exact h st₁ hprep
    | some st₂ =>
      rw [hstate, Option.some_or] at hprep
      obtain rfl := Option.some.inj hprep
      rfl

/-- Without `reset`, the stored report is the last one that was computed, or the first one. -/
theorem reportStep_report {t t' : ReportTrace} {c : AmCall} (h : t.st.status = t.report)
    (hc : c ≠ .reset) (hstep : reportStep L t c = some t') : t'.st.status = t'.report := by
  obtain ⟨st', hst', rfl⟩ := Option.map_eq_some_iff.mp hstep
  rw [if_neg hc]
  show st'.status = (((reportState t.st c).or t.prepared).map _).getD {}
  rw [amStep_report hst']
  cases hprep : reportState t.st c with
  | none => exact h
  | some st₁ => rfl

/-- A report depends on `vr_r`, `vr_ms` and `rx_window` only. -/
theorem prepareStatus_congr (hR : st'.vrR = st.vrR) (hMs : st'.vrMs = st.vrMs)
    (hw : st'.rxWindow = st.rxWindow) : (prepareStatus st').status = (prepareStatus st).status := by
  have hbase : st'.rxModBase = st.rxModBase := by
    funext x
    rw [RlcAm.rxModBase, RlcAm.rxModBase, hR]
  have hcollect : ∀ rounds i, collectNacks st' rounds i = collectNacks st rounds i := by
    intro rounds
    induction rounds with
    | zero => exact fun _ => rfl
    | succ rounds ih =>
      intro i
      rw [collectNacks, collectNacks, hbase, hMs, hw, ih]
  show ({ ackSn := st'.vrMs, nacks := collectNacks st' 1024 st'.vrR } : StatusPdu) = _
  rw [hcollect, hMs, hR]
  rfl

end

/-- Whenever `read_pdu` sends a status PDU, and with it takes the poll as answered, it sends
the report of the last buffer state query that computed one, if a query has done so since the last
`reset`. This is the current report when `vr_r`, `vr_ms` and `rx_window` have not changed since. -/
theorem readPdu_sendsReport {L : SrslteBit} {cnfg : AmConfig} {calls : List AmCall}
    {t : ReportTrace} {st' : RlcAm} {now n : Nat} {out : Bytes}
    (hrun : runTo (reportStep L) { st := configure {} cnfg } calls = some t)
    (hsince : t.prepared.isSome ∨ AmCall.reset ∉ calls)
    (hdue : (t.st.doStatus && !statusProhibited t.st now) = true)
    (hread : readPdu L t.st now n = some (st', out)) (hsent : out ≠ []) :
    st'.doStatus = false ∧ st'.pollReceived = false ∧ out = writeStatusPdu L t.report ∧
    ∀ st₁, t.prepared = some st₁ → st₁.vrR = t.st.vrR → st₁.vrMs = t.st.vrMs →
      st₁.rxWindow = t.st.rxWindow → t.report = (prepareStatus t.st).status := by
  -- `read_pdu` sends the stored report. A query writes it, a reset leaves it, and nothing else
  -- touches it.
  have hstored : t.st.status = t.report := by
    rcases hsince with hsome | hreset
    · obtain ⟨st₁, hprep⟩ := Option.isSome_iff_exists.mp hsome
      have hinv := runTo_inv (K := fun _ => True)
        (I := fun t : ReportTrace => ∀ st₁, t.prepared = some st₁ →
          t.st.status = (prepareStatus st₁).status)
        (fun _ _ _ h _ hstep => reportStep_prepared h hstep) (fun _ _ => trivial)
        (fun st₁ h => by cases h) hrun
      rw [ReportTrace.report, hprep]
      exact hinv st₁ hprep
    · exact runTo_inv (I := fun t : ReportTrace => t.st.status = t.report) (K := (· ≠ .reset))
        (fun _ _ _ h hc hstep => reportStep_report h hc hstep)
        (fun c hc hr => by rw [hr] at hc; exact hreset hc) rfl hrun
  have hbuild : buildStatusPdu L t.st now n = (st', out) := by
    rw [readPdu, if_pos hdue] at hread
    exact Option.some.inj hread
  unfold buildStatusPdu at hbuild
  split at hbuild
  · obtain ⟨rfl, rfl⟩ := Prod.mk.inj hbuild
    refine ⟨rfl, rfl, by rw [hstored], ?_⟩
    intro st₁ hprep hR hMs hw
    rw [ReportTrace.report, hprep]
    exact prepareStatus_congr hR hMs hw
  · obtain ⟨-, rfl⟩ := Prod.mk.inj hbuild
    exact absurd rfl hsent

/-- A poll, and a query that computes the report for it. -/
def pollAndQuery : List AmCall := [.writePdu 0 [0xA0, 0x00, 7], .getBufferState 0]

/-- A report that was asked for by a poll is sent. -/
theorem readPdu_sendsReport_poll :
    ∃ t st', runTo (reportStep msbFirst) { st := configure {} {} } pollAndQuery = some t ∧
      (t.st.doStatus && !statusProhibited t.st 0) = true ∧
      readPdu msbFirst t.st 0 2 = some (st', [0x00, 0x04]) ∧ st'.doStatus = false ∧
      [0x00, 0x04] = writeStatusPdu msbFirst t.report := by
  have hrun : ((runTo (reportStep msbFirst) { st := configure {} {} } pollAndQuery).bind fun t =>
      (readPdu msbFirst t.st 0 2).map fun r =>
        (t.st.doStatus && !statusProhibited t.st 0, r.2)) = some (true, [0x00, 0x04]) := by
    decide +kernel
  obtain ⟨t, ht, hrun⟩ := Option.bind_eq_some_iff.mp hrun
  obtain ⟨⟨st', out⟩, hread, heq⟩ := Option.map_eq_some_iff.mp hrun
  obtain ⟨hdue, rfl⟩ := Prod.mk.inj heq
  obtain ⟨hdo, -, hout, -⟩ := readPdu_sendsReport ht (.inr (by simp [pollAndQuery])) hdue hread
    (by simp)
  exact ⟨t, st', ht, hdue, hread, hdo, hout⟩

/-- A second poll arrives between the query and the transmission. It is answered with the
report from before, which does not acknowledge the polling PDU. -/
theorem readPdu_report_outdated :
    ¬ ∀ (cnfg : AmConfig) (calls : List AmCall) (st st' : RlcAm) (now n : Nat) (out : Bytes),
      runTo (amStep msbFirst) (configure {} cnfg) calls = some st →
      (st.doStatus && !statusProhibited st now) = true →
      readPdu msbFirst st now n = some (st', out) → out ≠ [] →
      out = writeStatusPdu msbFirst (prepareStatus st).status := by
  intro hall
  have hrun : ((runTo (amStep msbFirst) (configure {} {})
      (pollAndQuery ++ [.writePdu 0 [0xA0, 0x01, 7]])).bind fun st =>
        (readPdu msbFirst st 0 2).map fun r =>
          (st.doStatus && !statusProhibited st 0, r.2,
            writeStatusPdu msbFirst (prepareStatus st).status))
      = some (true, [0x00, 0x04], [0x00, 0x08]) := by
    decide +kernel
  obtain ⟨st, hst, hrun⟩ := Option.bind_eq_some_iff.mp hrun
  obtain ⟨⟨st', out⟩, hread, heq⟩ := Option.map_eq_some_iff.mp hrun
  simp only [Prod.mk.injEq] at heq
  obtain ⟨hdue, rfl, hnow⟩ := heq
  have hsame := hall {} _ st st' 0 2 _ hst hdue hread (by simp)
  rw [hnow] at hsame
  cases hsame

end SrsUE.Proofs.Rlc
