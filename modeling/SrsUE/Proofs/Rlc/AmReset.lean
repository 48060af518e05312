import SrsUE.Lib.Run
import SrsUE.Proofs.Rlc.AmRxVariables
import SrsUE.Proofs.Rlc.AmStatusReport

/-!
# `SrsUE.Proofs.Rlc.AmReset`: what a reset of `rlc_am` forgets

`amTrace` is what the outside sees of an entity: the PDUs and buffer states it returns, and the
SDUs and failures it reports upwards, call by call. `reset` followed by `configure` should leave
an entity with the traces of a new one.

`RlcAm.withHidden` replaces the parts of the state that a new entity may have different without
being told apart: the bytes of `rx_sdu`, and timeouts that do not run any more. `amObserve_sim`
says that no call tells them apart. What is left are four things that `reset` does not clear:
`tx_sdu`, `status`, `poll_retx_timeout` and `status_prohibit_timeout`. Each of them shows in a
later call (`amReset_forgets_iff`).
-/

set_option autoImplicit false

namespace SrsUE.Proofs.Rlc

open SrsUE.Lib
open SrsUE.Rlc

/-! ### What a call shows -/

/-- What the outside sees of a call: the bytes that `read_pdu` returns, the buffer state, the SDUs
handed to PDCP and the calls of `rrc->max_retx_attempted`. -/
structure AmOutput where
  payload : Bytes := []
  bufferState : Nat := 0
  delivered : List Bytes := []
  maxRetxAttempted : Nat := 0
deriving DecidableEq, Repr

section
variable (L : SrslteBit)

/-- The state after a call, with the bytes and the number it returns. -/
def amResult (st : RlcAm) : AmCall → Option (RlcAm × Bytes × Nat)
  | .writeSdu sdu => (writeSdu st sdu).map fun st => (st, [], 0)
  | .readPdu now nofBytes => (readPdu L st now nofBytes).map fun r => (r.1, r.2, 0)
  | .writePdu now payload => (writePdu L st now payload).map fun st => (st, [], 0)
  | .getBufferState now => some ((getBufferState st now).1, [], (getBufferState st now).2)
  | .getTotalBufferState now =>
    some ((getTotalBufferState st now).1, [], (getTotalBufferState st now).2)
  | .reset => some (reset st, [], 0)

/-- The state of `amResult` is that of `amStep`. -/
theorem amResult_amStep (st : RlcAm) (c : AmCall) :
    (amResult L st c).map (·.1) = amStep L st c := by
  cases c <;> simp [amResult, amStep, Function.comp_def]

/-- A call and what it shows. The records of SDUs and failures start anew with each call. -/
def amObserve (st : RlcAm) (c : AmCall) : Option (RlcAm × AmOutput) :=
  (amResult L { st with pdcp := [], maxRetxAttempted := 0 } c).map fun (st', payload, n) =>
    (st', { payload := payload, bufferState := n, delivered := st'.pdcp
            maxRetxAttempted := st'.maxRetxAttempted })

end

/-- The clock reading of a call. `write_sdu` and `reset` do not read the clock. -/
def callTime : AmCall → Option Nat
  | .writeSdu _ => none
  | .readPdu now _ => some now
  | .writePdu now _ => some now
  | .getBufferState now => some now
  | .getTotalBufferState now => some now
  | .reset => none

/-- Calls from the time `t` on, in the order of the clock. -/
def Clocked : Nat → List AmCall → Prop
  | _, [] => True
  | t, c :: cs => t ≤ (callTime c).getD t ∧ Clocked ((callTime c).getD t) cs

/-- The call is not made before the time `t`. -/
def NotBefore (t : Nat) (c : AmCall) : Prop := ∀ now, callTime c = some now → t ≤ now

/-- Calls in the order of the clock are made no earlier than it starts. -/
theorem Clocked.notBefore {t : Nat} {calls : List AmCall} (h : Clocked t calls) :
    ∀ c ∈ calls, NotBefore t c := by
  induction calls generalizing t with
  | nil => exact fun c hc => by cases hc
  | cons c cs ih =>
    obtain ⟨hle, hrest⟩ := h
    intro d hd
    rcases List.mem_cons.mp hd with rfl | hd
    · intro now hnow
      rwa [hnow] at hle
    · intro now hnow
      exact Nat.le_trans hle (ih hrest d hd now hnow)

/-! ### The hidden parts of the state -/

/-- The parts of the state that can differ without being seen. -/
structure AmHidden where
  rxSdu : Option Bytes
  reorderingTimeout : Timeout
  pollRetxTimeout : Timeout
  statusProhibitTimeout : Timeout

def hiddenOf (st : RlcAm) : AmHidden :=
  { rxSdu := st.rxSdu, reorderingTimeout := st.reorderingTimeout
    pollRetxTimeout := st.pollRetxTimeout, statusProhibitTimeout := st.statusProhibitTimeout }

def withHidden (st : RlcAm) (H : AmHidden) : RlcAm :=
  { st with
    rxSdu := H.rxSdu, reorderingTimeout := H.reorderingTimeout
    pollRetxTimeout := H.pollRetxTimeout, statusProhibitTimeout := H.statusProhibitTimeout }

/-- Equal timeouts, or two that do not run. -/
def TimeoutSim (a b : Timeout) : Prop := a = b ∨ a.running = false ∧ b.running = false

/-- Equal timeouts, or one that has expired by `t` and one that does not run. -/
def ExpiredSim (t : Nat) (a b : Timeout) : Prop :=
  a = b ∨ (a.running = true → a.stopTime < t) ∧ b.running = false

/-- The two hidden parts cannot be told apart from the time `t` on. -/
structure HiddenSim (t : Nat) (a b : AmHidden) : Prop where
  rxSdu : a.rxSdu.getD [] = b.rxSdu.getD []
  reordering : TimeoutSim a.reorderingTimeout b.reorderingTimeout
  pollRetx : TimeoutSim a.pollRetxTimeout b.pollRetxTimeout
  statusProhibit : ExpiredSim t a.statusProhibitTimeout b.statusProhibitTimeout

/-- The states differ in their hidden parts only. -/
def AmSim (t : Nat) (s f : RlcAm) : Prop := ∃ H, s = withHidden f H ∧ HiddenSim t H (hiddenOf f)

/-- Equal results, with states that differ in their hidden parts only. -/
def ResultSim {β : Type} (t : Nat) (x y : RlcAm × β) : Prop := AmSim t x.1 y.1 ∧ x.2 = y.2

section
variable {t now : Nat} {a b : Timeout}

/-- Timeouts that cannot be told apart both run or both do not. -/
theorem TimeoutSim.running (h : TimeoutSim a b) : a.running = b.running := by
  rcases h with rfl | ⟨ha, hb⟩
  · rfl
  · rw [ha, hb]

/-- They have both expired, or neither has. -/
theorem TimeoutSim.expired (h : TimeoutSim a b) (now : Nat) : a.expired now = b.expired now := by
  rcases h with rfl | ⟨ha, hb⟩
  · rfl
  · rw [Timeout.expired, Timeout.expired, ha, hb]
    rfl

/-- Started at the same time for the same duration, they still cannot be told apart. -/
theorem TimeoutSim.start (h : TimeoutSim a b) (now : Nat) (d : Int) :
    TimeoutSim (a.start now d) (b.start now d) := by
  unfold Timeout.start
  split
  · exact h
  · exact .inl rfl

/-- Any two timeouts are alike once they are reset. -/
theorem timeoutSim_reset (a b : Timeout) : TimeoutSim a.reset b.reset := .inr ⟨rfl, rfl⟩

/-- A timeout that has expired no longer prohibits a status PDU. -/
theorem ExpiredSim.prohibits (h : ExpiredSim t a b) (hnow : t ≤ now) :
    (a.running && !a.expired now) = (b.running && !b.expired now) := by
  rcases h with rfl | ⟨ha, hb⟩
  · rfl
  · rw [hb, Bool.false_and]
    cases hrun : a.running with
    | false => rfl
    | true =>
      rw [Timeout.expired, hrun, decide_eq_true (Nat.lt_of_lt_of_le (ha hrun) hnow)]
      rfl

/-- A start makes the two timeouts equal. -/
theorem ExpiredSim.start (h : ExpiredSim t a b) (now : Nat) (d : Int) :
    ExpiredSim t (a.start now d) (b.start now d) := by
  unfold Timeout.start
  split
  · exact h
  · exact .inl rfl

end

/-! ### Calls do not tell hidden parts apart -/

section
variable {t : Nat} {H : AmHidden} {f : RlcAm}

/-- The function neither reads nor writes the hidden parts. -/
def Visible (g : RlcAm → RlcAm) : Prop := ∀ f H, g (withHidden f H) = withHidden (g f) H

/-- A function that does not touch the hidden parts leaves them as they are. -/
theorem Visible.hiddenOf_eq {g : RlcAm → RlcAm} (hg : Visible g) (f : RlcAm) :
    hiddenOf (g f) = hiddenOf f := by
  have h := hg f (hiddenOf f)
  have hself : withHidden f (hiddenOf f) = f := rfl
  rw [hself] at h
  rw [h]
  rfl

/-- Such a function keeps two states alike. -/
theorem Visible.sim {g : RlcAm → RlcAm} (hg : Visible g) {s : RlcAm} (h : AmSim t s f) :
    AmSim t (g s) (g f) := by
  obtain ⟨H, rfl, h⟩ := h
  exact ⟨H, hg f H, by rwa [hg.hiddenOf_eq]⟩

/-- The report is computed from the receive variables only. -/
theorem visible_prepareStatus : Visible prepareStatus := by
  intro f H
  have hnacks : ∀ rounds i,
      collectNacks (withHidden f H) rounds i = collectNacks f rounds i := by
    intro rounds
    induction rounds with
    | zero => exact fun _ => rfl
    | succ rounds ih =>
      intro i
      rw [collectNacks, collectNacks, ih]
      rfl
  rw [prepareStatus, hnacks]
  rfl

/-- `vr_h` is no hidden part. -/
theorem visible_updateVrH (sn : Nat) : Visible fun st => updateVrH st sn := fun _ H =>
  ite_rel (R := fun s f => s = withHidden f H) Iff.rfl (fun _ => rfl) (fun _ => rfl)

/-- The poll bit sets `do_status` and `poll_received`, no hidden parts. -/
theorem visible_checkPollBit (header : AmdPduHeader) : Visible fun st => checkPollBit st header :=
  fun _ H => ite_rel (R := fun s f => s = withHidden f H) Iff.rfl (fun _ => rfl) (fun _ => rfl)

/-- A data PDU goes into `rx_window`, no hidden part. -/
theorem visible_storeDataPdu (payload : Bytes) (header : AmdPduHeader) :
    Visible fun st => storeDataPdu st payload header := by
  intro f H
  let st : RlcAm := { f with
    rxWindow := f.rxWindow.insert header.sn { header := header, buf := payload } }
  have hvr : updateVrH (withHidden st H) header.sn = withHidden (updateVrH st header.sn) H :=
    visible_updateVrH header.sn st H
  let st' : RlcAm := { updateVrH st header.sn with
    vrMs := skipReceived (updateVrH st header.sn).rxWindow 1024 (updateVrH st header.sn).vrMs }
  have hpoll : checkPollBit (withHidden st' H) header = withHidden (checkPollBit st' header) H :=
    visible_checkPollBit header st' H
  show checkPollBit { updateVrH (withHidden st H) header.sn with
    vrMs := skipReceived (updateVrH (withHidden st H) header.sn).rxWindow 1024
      (updateVrH (withHidden st H) header.sn).vrMs } header = _
  rw [hvr]
  exact hpoll

/-- A NACK is looked up in `tx_window` and queued, without the hidden parts. -/
theorem visible_queueNack (i : Nat) (nack : StatusNack) : Visible fun st =>
    queueNack i st nack := by
  intro f H
  show queueNack i (withHidden f H) nack = withHidden (queueNack i f nack) H
  have hw : (withHidden f H).txWindow i = f.txWindow i := rfl
  have hq : retxQueueHasSn (withHidden f H) i = retxQueueHasSn f i := rfl
  unfold queueNack
  rw [hw, hq]
  by_cases hi : nack.nackSn = i
  · rw [if_pos hi, if_pos hi]
    cases f.txWindow i with
    | none => rfl
    | some tx => cases retxQueueHasSn f i <;> rfl
  · rw [if_neg hi, if_neg hi]

/-- An ACK moves `vt_a` and erases a PDU, without the hidden parts. -/
theorem visible_ackPdu (i : Nat) (updateVtA : Bool) : Visible (ackPdu i updateVtA) := by
  intro f H
  have hw : (withHidden f H).txWindow i = f.txWindow i := rfl
  unfold ackPdu
  rw [hw]
  cases f.txWindow i with
  | none => rfl
  | some tx => cases updateVtA <;> rfl

/-- All NACKs of a status report for one sequence number. -/
theorem visible_queueNacks (i : Nat) (nacks : List StatusNack) :
    Visible (nacks.foldl (queueNack i)) := by
  induction nacks with
  | nil => exact fun _ _ => rfl
  | cons nack nacks ih =>
    intro f H
    have hnack : queueNack i (withHidden f H) nack = withHidden (queueNack i f nack) H :=
      visible_queueNack i nack f H
    show nacks.foldl (queueNack i) (queueNack i (withHidden f H) nack) = _
    rw [hnack]
    exact ih (queueNack i f nack) H

/-- The loop over the acknowledged sequence numbers. Induction on the rounds. -/
theorem visible_handleAcks (status : StatusPdu) (rounds i : Nat) (updateVtA : Bool) :
    Visible (handleAcks status rounds i updateVtA) := by
  induction rounds generalizing i updateVtA with
  | zero => exact fun _ _ => rfl
  | succ rounds ih =>
    intro f H
    have hbase : (withHidden f H).txModBase = f.txModBase := rfl
    have hvtS : (withHidden f H).vtS = f.vtS := rfl
    rw [handleAcks, handleAcks, hbase, hvtS]
    by_cases hc : f.txModBase i < f.txModBase status.ackSn ∧ f.txModBase i < f.txModBase f.vtS
    · rw [if_pos hc, if_pos hc]
      simp only [visible_queueNacks i status.nacks f H, visible_ackPdu i _ f H]
      split
      · exact ih _ _ _ _
      · exact ih _ _ _ _
    · rw [if_neg hc, if_neg hc]

/-- The reordering timer does not depend on the hidden parts. -/
theorem checkReorderingTimeout_sim (h : HiddenSim t H (hiddenOf f)) (now : Nat) :
    AmSim t (checkReorderingTimeout (withHidden f H) now) (checkReorderingTimeout f now) := by
  have hrun : H.reorderingTimeout.running = f.reorderingTimeout.running := h.reordering.running
  have hexp : H.reorderingTimeout.expired now = f.reorderingTimeout.expired now :=
    h.reordering.expired now
  unfold checkReorderingTimeout
  refine ite_rel (R := AmSim t) ?_ (fun _ => ?_) (fun _ => ⟨H, rfl, h⟩)
  · show (H.reorderingTimeout.running && H.reorderingTimeout.expired now) = true ↔ _
    rw [hrun, hexp]
  · refine ite_rel (R := AmSim t) Iff.rfl (fun _ => ?_) (fun _ => ?_)
    · refine ⟨⟨_, _, _, _⟩, rfl, ?_⟩
      exact { h with reordering := (timeoutSim_reset _ _).start _ _ }
    · refine ⟨⟨_, _, _, _⟩, rfl, ?_⟩
      exact { h with reordering := timeoutSim_reset _ _ }

/-- The poll retransmit timeout has expired in both states or in neither. -/
theorem pollRequired_sim (h : HiddenSim t H (hiddenOf f)) (now : Nat) :
    pollRequired (withHidden f H) now = pollRequired f now := by
  have hpoll : pollRetx (withHidden f H) now = pollRetx f now := by
    show (H.pollRetxTimeout.running && H.pollRetxTimeout.expired now) = _
    rw [h.pollRetx.running, h.pollRetx.expired]
    rfl
  unfold pollRequired
  rw [hpoll]
  rfl

/-- The status prohibit timeout holds a report back in both states or in neither: one that has
expired before the time of the call does not. -/
theorem statusProhibited_sim (h : HiddenSim t H (hiddenOf f)) {now : Nat} (hnow : t ≤ now) :
    statusProhibited (withHidden f H) now = statusProhibited f now :=
  h.statusProhibit.prohibits hnow

/-- The state after the poll bit is decided. -/
theorem setPoll_sim (h : HiddenSim t H (hiddenOf f)) (now : Nat) (poll : Bool) :
    AmSim t (if poll then setPoll (withHidden f H) now else withHidden f H)
      (if poll then setPoll f now else f) := by
  refine ite_rel (R := AmSim t) Iff.rfl (fun _ => ?_) (fun _ => ⟨H, rfl, h⟩)
  refine ⟨⟨_, _, _, _⟩, rfl, ?_⟩
  exact { h with pollRetx := h.pollRetx.start _ _ }

/-- A segment of a PDU reads none of the hidden parts. -/
theorem buildSegment_sim (h : HiddenSim t H (hiddenOf f)) (nofBytes : Nat) (tx : AmdTxPdu)
    (retx : AmdRetx) (rest : List AmdRetx) :
    ResultSim t (buildSegment (withHidden f H) nofBytes tx retx rest)
      (buildSegment f nofBytes tx retx rest) := by
  unfold buildSegment
  refine ite_rel Iff.rfl (fun _ => ⟨⟨H, rfl, h⟩, rfl⟩) (fun _ => ?_)
  refine ite_rel Iff.rfl (fun _ => ⟨⟨H, rfl, h⟩, rfl⟩) (fun _ => ?_)
  exact ite_rel Iff.rfl (fun _ => ⟨⟨H, rfl, h⟩, rfl⟩) (fun _ => ⟨⟨H, rfl, h⟩, rfl⟩)

/-- Nor does a retransmission in one piece, apart from the poll bit. -/
theorem retransmitPdu_sim (h : HiddenSim t H (hiddenOf f)) (now : Nat) (tx : AmdTxPdu)
    (retx : AmdRetx) (rest : List AmdRetx) :
    ResultSim t (retransmitPdu (withHidden f H) now tx retx rest)
      (retransmitPdu f now tx retx rest) := by
  unfold retransmitPdu
  rw [pollRequired_sim h now]
  obtain ⟨H', heq, h'⟩ := setPoll_sim h now (pollRequired f now)
  simp only [heq]
  exact ⟨⟨H', rfl, h'⟩, rfl⟩

/-- A PDU from the retransmission queue. -/
theorem buildRetxPdu_sim (h : HiddenSim t H (hiddenOf f)) (now nofBytes : Nat) :
    Option.Rel (ResultSim t) (buildRetxPdu (withHidden f H) now nofBytes)
      (buildRetxPdu f now nofBytes) := by
  have hlive : liveRetx (withHidden f H) = liveRetx f := rfl
  have hw : (withHidden f H).txWindow = f.txWindow := rfl
  unfold buildRetxPdu
  rw [hlive, hw]
  cases liveRetx f with
  | nil => exact .none
  | cons retx rest =>
    cases htx : f.txWindow retx.sn with
    | none =>
      simp only [htx]
      exact .none
    | some tx =>
      simp only [htx]
      refine ite_rel Iff.rfl (fun _ => .some ?_) (fun _ => .some ?_)
      · obtain ⟨hst, hout⟩ :=
          @buildSegment_sim t H { f with retxQueue := retx :: rest } h nofBytes tx retx rest
        exact ⟨hst, congrArg pduBytes hout⟩
      · exact @retransmitPdu_sim t H { f with retxQueue := retx :: rest } h now tx retx rest

/-- The last part of `build_data_pdu`: the poll bit, the sequence number and the place in
`tx_window` of the PDU. -/
def numberPdu (st : RlcAm) (now : Nat) (fi : FiField) (b : PduBuild) :
    RlcAm × Option (AmdPduHeader × Bytes) :=
  let poll := pollRequired st now
  let st := if poll then setPoll st now else st
  let header : AmdPduHeader := { dc := .dataPdu, p := poll, fi := fi, sn := st.vtS, li := b.li }
  ({ st with
      vtS := (st.vtS + 1) % 1024
      txWindow := st.txWindow.insert header.sn { header := header, buf := b.pdu } },
    some (header, b.pdu))

/-- Nor does the numbering of a new PDU, apart from the poll bit. -/
theorem numberPdu_sim (h : HiddenSim t H (hiddenOf f)) (now : Nat) (fi : FiField) (b : PduBuild) :
    ResultSim t (numberPdu (withHidden f H) now fi b) (numberPdu f now fi b) := by
  unfold numberPdu
  rw [pollRequired_sim h now]
  obtain ⟨H', heq, h'⟩ := setPoll_sim h now (pollRequired f now)
  simp only [heq]
  exact ⟨⟨H', rfl, h'⟩, rfl⟩

/-- A new PDU. -/
theorem buildDataPdu_sim (h : HiddenSim t H (hiddenOf f)) (now nofBytes : Nat) :
    ResultSim t (buildDataPdu (withHidden f H) now nofBytes) (buildDataPdu f now nofBytes) := by
  unfold buildDataPdu
  refine ite_rel Iff.rfl (fun _ => ⟨⟨H, rfl, h⟩, rfl⟩) (fun _ => ?_)
  refine ite_rel Iff.rfl (fun _ => ⟨⟨H, rfl, h⟩, rfl⟩) (fun _ => ?_)
  -- The PDU is filled from visible parts only.
  let b := fillPdu f.txSdu f.txSduQueue nofBytes
  exact @numberPdu_sim t H
    { f with
      txSdu := b.txSdu
      txSduQueue := b.queue
      pduWithoutPoll := f.pduWithoutPoll + 1
      byteWithoutPoll := f.byteWithoutPoll + (b.pdu.length + b.headLen) }
    h now (dataPduFi f.txSdu b.txSdu) b

/-- A status PDU starts the prohibit timeout anew, in both states alike. -/
theorem buildStatusPdu_sim (L : SrslteBit) (h : HiddenSim t H (hiddenOf f)) (now nofBytes : Nat) :
    ResultSim t (buildStatusPdu L (withHidden f H) now nofBytes)
      (buildStatusPdu L f now nofBytes) := by
  unfold buildStatusPdu
  refine ite_rel Iff.rfl (fun _ => ⟨?_, rfl⟩) (fun _ => ⟨⟨H, rfl, h⟩, rfl⟩)
  refine ⟨⟨_, _, _, _⟩, rfl, { h with statusProhibit := ?_ }⟩
  exact ite_rel Iff.rfl (fun _ => h.statusProhibit.start _ _) (fun _ => h.statusProhibit)

/-- `read_pdu` returns the same bytes and leaves states that are still alike. -/
theorem readPdu_sim (L : SrslteBit) (h : HiddenSim t H (hiddenOf f)) {now : Nat} (hnow : t ≤ now)
    (nofBytes : Nat) :
    Option.Rel (ResultSim t) (readPdu L (withHidden f H) now nofBytes)
      (readPdu L f now nofBytes) := by
  unfold readPdu
  refine ite_rel ?_ (fun _ => .some (buildStatusPdu_sim L h now nofBytes)) (fun _ => ?_)
  · rw [statusProhibited_sim h hnow]
    rfl
  · refine ite_rel Iff.rfl (fun _ => buildRetxPdu_sim h now nofBytes) (fun _ => .some ?_)
    obtain ⟨hst, hout⟩ := buildDataPdu_sim h now nofBytes
    exact ⟨hst, congrArg pduBytes hout⟩

/-- A status report acts on the transmit window in both states alike. -/
theorem handleStatus_sim (h : HiddenSim t H (hiddenOf f)) (status : StatusPdu) :
    AmSim t (handleStatus (withHidden f H) status) (handleStatus f status) := by
  refine (visible_handleAcks status 1024 f.vtA true).sim (f := { f with
    pollRetxTimeout := f.pollRetxTimeout.reset }) ?_
  exact ⟨{ H with pollRetxTimeout := H.pollRetxTimeout.reset }, rfl,
    { h with pollRetx := timeoutSim_reset _ _ }⟩

/-- The reassembly loop. Induction on the rounds, where `rx_sdu` is the only hidden part in play. -/
theorem reassembleLoop_sim (rounds : Nat) (h : HiddenSim t H (hiddenOf f)) :
    AmSim t (reassembleLoop rounds (withHidden f H)) (reassembleLoop rounds f) := by
  induction rounds generalizing f H with
  | zero => exact ⟨H, rfl, h⟩
  | succ rounds ih =>
    have hw : (withHidden f H).rxWindow (withHidden f H).vrR = f.rxWindow f.vrR := rfl
    rw [reassembleLoop, reassembleLoop, hw]
    cases f.rxWindow f.vrR with
    | none => exact ⟨H, rfl, h⟩
    | some pdu =>
      have hsdu : H.rxSdu.getD [] = f.rxSdu.getD [] := h.rxSdu
      have hpdu : reassemblePdu (withHidden f H) pdu = withHidden (reassemblePdu f pdu)
          { H with rxSdu := (reassemblePdu f pdu).rxSdu } := by
        unfold reassemblePdu
        show _ = _
        simp only [withHidden, hsdu]
      simp only [hpdu]
      exact ih { h with rxSdu := rfl }

/-- A buffer that is not there yet is as good as an empty one. -/
theorem reassembleRxSdus_sim {s : RlcAm} (h : AmSim t s f) :
    AmSim t (reassembleRxSdus s) (reassembleRxSdus f) := by
  obtain ⟨H, rfl, h⟩ := h
  exact @reassembleLoop_sim t { H with rxSdu := some (H.rxSdu.getD []) }
    { f with rxSdu := some (f.rxSdu.getD []) } 1024 { h with rxSdu := h.rxSdu }

/-- The timer part of a received PDU: the first conditional stops the timer, the second one starts
it. -/
theorem updateReordering_sim {s : RlcAm} (h : AmSim t s f) (now : Nat) :
    AmSim t (updateReordering s now) (updateReordering f now) := by
  obtain ⟨H, rfl, h⟩ := h
  have hrun : H.reorderingTimeout.running = f.reorderingTimeout.running := h.reordering.running
  have hstart : ∀ {s g : RlcAm}, AmSim t s g → AmSim t
      (if !s.reorderingTimeout.running && decide (s.rxModBase s.vrR < s.rxModBase s.vrH) then
        { s with reorderingTimeout := s.reorderingTimeout.start now s.cfg.tReordering,
                 vrX := s.vrH }
        else s)
      (if !g.reorderingTimeout.running && decide (g.rxModBase g.vrR < g.rxModBase g.vrH) then
        { g with reorderingTimeout := g.reorderingTimeout.start now g.cfg.tReordering,
                 vrX := g.vrH }
        else g) := by
    rintro _ g ⟨G, rfl, hg⟩
    have hrun : G.reorderingTimeout.running = g.reorderingTimeout.running := hg.reordering.running
    refine ite_rel (R := AmSim t) ?_ (fun _ => ?_) (fun _ => ⟨G, rfl, hg⟩)
    · show (!G.reorderingTimeout.running && _) = true ↔ _
      rw [hrun]
      rfl
    · exact ⟨{ G with reorderingTimeout := G.reorderingTimeout.start now g.cfg.tReordering }, rfl,
        { hg with reordering := hg.reordering.start _ _ }⟩
  unfold updateReordering
  refine hstart (ite_rel (R := AmSim t) ?_ (fun _ => ?_) (fun _ => ⟨H, rfl, h⟩))
  · show (H.reorderingTimeout.running && _) = true ↔ _
    rw [hrun]
    rfl
  · exact ⟨{ H with reorderingTimeout := H.reorderingTimeout.reset }, rfl,
      { h with reordering := timeoutSim_reset _ _ }⟩

/-- A whole data PDU is stored and reassembled in both states alike. -/
theorem handleDataPdu_sim {s : RlcAm} (h : AmSim t s f) (now : Nat) (payload : Bytes)
    (header : AmdPduHeader) :
    AmSim t (handleDataPdu s now payload header) (handleDataPdu f now payload header) := by
  obtain ⟨H', hstore, h'⟩ := (visible_storeDataPdu payload header).sim h
  obtain ⟨H, rfl, h⟩ := h
  unfold handleDataPdu
  refine ite_rel (R := AmSim t) Iff.rfl (fun _ => ⟨H, rfl, h⟩) (fun _ => ?_)
  refine ite_rel (R := AmSim t) Iff.rfl (fun _ => ⟨H, rfl, h⟩) (fun _ => ?_)
  exact updateReordering_sim (reassembleRxSdus_sim ⟨H', hstore, h'⟩) now

/-- A segment completes its PDU in both states or in neither. -/
theorem storeSegment_sim (h : HiddenSim t H (hiddenOf f)) (payload : Bytes)
    (header : AmdPduHeader) :
    ResultSim t (storeSegment (withHidden f H) payload header) (storeSegment f payload header) := by
  have hs : (withHidden f H).rxSegments header.sn = f.rxSegments header.sn := rfl
  unfold storeSegment
  refine ite_rel Iff.rfl (fun _ => ⟨⟨H, rfl, h⟩, rfl⟩) (fun _ => ?_)
  rw [hs]
  cases f.rxSegments header.sn with
  | some segments => exact ⟨⟨H, rfl, h⟩, rfl⟩
  | none =>
    refine ⟨?_, rfl⟩
    refine (visible_checkPollBit header).sim ((visible_updateVrH header.sn).sim ?_)
    exact ⟨H, rfl, h⟩

/-- A segment leaves the states alike. -/
theorem handleDataPduSegment_sim (h : HiddenSim t H (hiddenOf f)) (now : Nat) (payload : Bytes)
    (header : AmdPduHeader) :
    AmSim t (handleDataPduSegment (withHidden f H) now payload header)
      (handleDataPduSegment f now payload header) := by
  obtain ⟨hst, hcall⟩ := storeSegment_sim h payload header
  unfold handleDataPduSegment
  generalize storeSegment (withHidden f H) payload header = x at hst hcall
  generalize storeSegment f payload header = y at hst hcall
  obtain ⟨s, c⟩ := x
  obtain ⟨g, c'⟩ := y
  obtain rfl : c = c' := hcall
  cases c with
  | none => exact hst
  | some full =>
    obtain ⟨H', heq, h'⟩ := handleDataPdu_sim hst now full.1 full.2
    simp only [heq]
    exact ⟨H', rfl, h'⟩

/-- `write_pdu` ends at the same branch and leaves the states alike. -/
theorem writePdu_sim (L : SrslteBit) (h : HiddenSim t H (hiddenOf f)) (now : Nat)
    (payload : Bytes) :
    Option.Rel (AmSim t) (writePdu L (withHidden f H) now payload) (writePdu L f now payload) := by
  unfold writePdu
  cases payload with
  | nil => exact .some ⟨H, rfl, h⟩
  | cons b0 rest =>
    refine ite_rel Iff.rfl (fun _ => ?_) (fun _ => ?_)
    · unfold handleControlPdu
      cases readStatusPdu L (b0 :: rest) with
      | none => exact .none
      | some status => exact .some (handleStatus_sim h status)
    · cases readDataPduHeader (b0 :: rest) with
      | none => exact .none
      | some r =>
        refine ite_rel (R := Option.Rel (AmSim t)) Iff.rfl (fun _ => .some ?_) (fun _ => .some ?_)
        · exact handleDataPduSegment_sim h now r.2 r.1
        · exact handleDataPdu_sim ⟨H, rfl, h⟩ now r.2 r.1

/-- `get_buffer_state` returns the same number. -/
theorem getBufferState_sim (h : HiddenSim t H (hiddenOf f)) {now : Nat} (hnow : t ≤ now) :
    ResultSim t (getBufferState (withHidden f H) now) (getBufferState f now) := by
  have hcheck := checkReorderingTimeout_sim h now
  unfold getBufferState
  generalize checkReorderingTimeout (withHidden f H) now = s at hcheck
  generalize checkReorderingTimeout f now = g at hcheck
  obtain ⟨G, rfl, hg⟩ := hcheck
  refine ite_rel ?_ (fun _ => ?_) (fun _ => ?_)
  · rw [statusProhibited_sim hg hnow]
    rfl
  · refine ⟨visible_prepareStatus.sim ⟨G, rfl, hg⟩, ?_⟩
    show statusPackedLength (prepareStatus (withHidden g G)).status = _
    rw [visible_prepareStatus]
    rfl
  · have hretx : retxBufferState (withHidden g G) = retxBufferState g := rfl
    rw [hretx]
    cases retxBufferState g with
    | some n => exact ⟨⟨G, rfl, hg⟩, rfl⟩
    | none => exact ⟨⟨G, rfl, hg⟩, rfl⟩

/-- `get_total_buffer_state` returns the same number. -/
theorem getTotalBufferState_sim (h : HiddenSim t H (hiddenOf f)) {now : Nat} (hnow : t ≤ now) :
    ResultSim t (getTotalBufferState (withHidden f H) now) (getTotalBufferState f now) := by
  have hcheck := checkReorderingTimeout_sim h now
  unfold getTotalBufferState
  generalize checkReorderingTimeout (withHidden f H) now = s at hcheck
  generalize checkReorderingTimeout f now = g at hcheck
  obtain ⟨G, rfl, hg⟩ := hcheck
  -- The status part first, then the bytes for retransmissions and SDUs.
  have hstatus : ResultSim t
      (if (withHidden g G).doStatus && !statusProhibited (withHidden g G) now then
        (prepareStatus (withHidden g G), statusPackedLength (prepareStatus (withHidden g G)).status)
        else (withHidden g G, 0))
      (if g.doStatus && !statusProhibited g now then
        (prepareStatus g, statusPackedLength (prepareStatus g).status) else (g, 0)) := by
    refine ite_rel ?_ (fun _ => ?_) (fun _ => ⟨⟨G, rfl, hg⟩, rfl⟩)
    · rw [statusProhibited_sim hg hnow]
      rfl
    · rw [visible_prepareStatus]
      exact ⟨⟨G, rfl, by rwa [visible_prepareStatus.hiddenOf_eq]⟩, rfl⟩
  simp only
  generalize (if (withHidden g G).doStatus && !statusProhibited (withHidden g G) now then
    (prepareStatus (withHidden g G), statusPackedLength (prepareStatus (withHidden g G)).status)
    else (withHidden g G, 0)) = x at hstatus ⊢
  generalize (if g.doStatus && !statusProhibited g now then
    (prepareStatus g, statusPackedLength (prepareStatus g).status) else (g, 0)) = y at hstatus ⊢
  obtain ⟨_, n⟩ := x
  obtain ⟨g', m⟩ := y
  obtain ⟨⟨K, rfl, hk⟩, hn⟩ := hstatus
  obtain rfl : n = m := hn
  exact ⟨⟨K, rfl, hk⟩, rfl⟩

/-- Both states are still alike after a reset. -/
theorem reset_sim (h : HiddenSim t H (hiddenOf f)) :
    AmSim t (reset (withHidden f H)) (reset f) := by
  refine ⟨⟨_, _, _, _⟩, rfl, { h with rxSdu := ?_, reordering := timeoutSim_reset _ _ }⟩
  -- A buffer that is there is emptied.
  show (H.rxSdu.map fun _ => []).getD [] = (f.rxSdu.map fun _ => []).getD []
  cases H.rxSdu <;> cases f.rxSdu <;> rfl

/-- Equal results and states up to hidden parts. -/
theorem amResult_sim (L : SrslteBit) {c : AmCall} (h : HiddenSim t H (hiddenOf f))
    (hc : NotBefore t c) :
    Option.Rel (ResultSim t) (amResult L (withHidden f H) c) (amResult L f c) := by
  cases c with
  | writeSdu sdu =>
    refine optionRel_map (R := AmSim t) (fun _ _ hr => ⟨hr, rfl⟩) ?_
    exact ite_rel Iff.rfl (fun _ => .some ⟨H, rfl, h⟩) (fun _ => .none)
  | readPdu now n =>
    exact optionRel_map (fun _ _ hr => ⟨hr.1, by rw [hr.2]⟩) (readPdu_sim L h (hc now rfl) n)
  | writePdu now payload =>
    exact optionRel_map (fun _ _ hr => ⟨hr, rfl⟩) (writePdu_sim L h now payload)
  | getBufferState now =>
    obtain ⟨hst, hn⟩ := getBufferState_sim h (hc now rfl)
    exact .some ⟨hst, by rw [hn]⟩
  | getTotalBufferState now =>
    obtain ⟨hst, hn⟩ := getTotalBufferState_sim h (hc now rfl)
    exact .some ⟨hst, by rw [hn]⟩
  | reset => exact .some ⟨reset_sim h, rfl⟩

/-- No call from the time `t` on tells the hidden parts apart. -/
theorem amObserve_sim (L : SrslteBit) {s f : RlcAm} {c : AmCall} (h : AmSim t s f)
    (hc : NotBefore t c) : Option.Rel (ResultSim t) (amObserve L s c) (amObserve L f c) := by
  obtain ⟨H, rfl, h⟩ := h
  refine optionRel_map ?_
    (@amResult_sim t H { f with pdcp := [], maxRetxAttempted := 0 } L c h hc)
  rintro ⟨s, r⟩ ⟨g, r'⟩ ⟨⟨G, heq, hg⟩, hout⟩
  obtain rfl : s = withHidden g G := heq
  obtain rfl : r = r' := hout
  exact ⟨⟨G, rfl, hg⟩, rfl⟩

end

/-! ### Runs of an entity -/

/-- What is done with an entity in its life. -/
inductive AmLifeCall where
  | call (c : AmCall)
  | configure (cnfg : AmConfig)

def amLifeStep (L : SrslteBit) (st : RlcAm) : AmLifeCall → Option RlcAm
  | .call c => amStep L st c
  | .configure cnfg => some (configure st cnfg)

/-- A state that a new entity reaches by any calls. -/
def AmReachable (L : SrslteBit) (st : RlcAm) : Prop :=
  ∃ calls, runTo (amLifeStep L) {} calls = some st

/-- `status` is as constructed, or from a time of the receive variables. -/
structure AmLifeInv (st : RlcAm) : Prop where
  vars : ∃ r ms h, RxVarsInv st r ms h
  status : ∃ r ms, StatusAt st.status r ms

section
variable {L : SrslteBit} {st st' : RlcAm}

/-- Every call keeps what is known of `status`. -/
theorem amLifeInv_step {c : AmLifeCall} (inv : AmLifeInv st)
    (hstep : amLifeStep L st c = some st') : AmLifeInv st' := by
  obtain ⟨r, ms, h, hvars⟩ := inv.vars
  cases c with
  | configure cnfg =>
    obtain rfl := Option.some.inj hstep
    have hsame : RxSame st (configure st cnfg) := by constructor <;> rfl
    exact { vars := ⟨r, ms, h, hvars.of_rxSame hsame⟩, status := inv.status }
  | call c =>
    refine { vars := ?_, status := ?_ }
    · by_cases hc : c = .reset
      · subst hc
        obtain rfl := Option.some.inj hstep
        exact ⟨0, 0, 0, rxVarsInv_reset st⟩
      · obtain ⟨r', ms', h', hvars', -⟩ := rxVarsInv_step hvars hc hstep
        exact ⟨r', ms', h', hvars'⟩
    · rw [amStep_report hstep]
      -- A new report is computed behind `check_reordering_timeout`.
      have hreport : ∀ now, ∃ r ms,
          StatusAt (prepareStatus (checkReorderingTimeout st now)).status r ms := by
        intro now
        obtain ⟨recv, hinv⟩ := hvars.window
        obtain ⟨ms', hinv', -⟩ := checkReorderingTimeout_spec hinv now
        exact ⟨r, ms', prepareStatus_statusAt hinv'⟩
      cases hst : reportState st c with
      | none => exact inv.status
      | some st₁ =>
        cases c with
        | getBufferState now =>
          simp only [reportState] at hst
          split at hst
          · obtain rfl := Option.some.inj hst
            exact hreport now
          · cases hst
        | getTotalBufferState now =>
          simp only [reportState] at hst
          split at hst
          · obtain rfl := Option.some.inj hst
            exact hreport now
          · cases hst
        | _ => cases hst

/-- It is known in every reachable state. Induction on the calls. -/
theorem AmReachable.inv (h : AmReachable L st) : AmLifeInv st := by
  obtain ⟨calls, hrun⟩ := h
  refine runTo_inv (K := fun _ => True) (fun _ _ _ inv _ hstep => amLifeInv_step inv hstep)
    (fun _ _ => trivial) ?_ hrun
  exact { vars := ⟨0, 0, 0, rxVarsInv_init {}⟩, status := ⟨0, 0, statusAt_init⟩ }

end

/-! ### Reset entities and new ones -/

/-- After a reset at the time `t`, alone or through `rlc_entity`, and a `configure` the entity
shows what a new one would show. -/
def AmForgets (L : SrslteBit) (t : Nat) (st : RlcAm) : Prop :=
  ∀ cnfg calls, Clocked t calls →
    trace (amObserve L) (configure (reset st) cnfg) calls
        = trace (amObserve L) (configure {} cnfg) calls ∧
      trace (amObserve L) (configure (entityReset st) cnfg) calls
        = trace (amObserve L) (configure {} cnfg) calls

/-- There is nothing that `reset` does not clear: no SDU is partly sent, no status report has been
computed, the poll retransmit timeout does not run, and the status prohibit timeout does not run
or has expired by the time `t`. -/
structure AmResettable (t : Nat) (st : RlcAm) : Prop where
  txSdu : st.txSdu = none
  status : st.status = {}
  pollRetx : st.pollRetxTimeout.running = false
  statusProhibit : st.statusProhibitTimeout.running = true → st.statusProhibitTimeout.stopTime < t

section
variable {L : SrslteBit} {t : Nat} {st : RlcAm}

/-- The records of an earlier call are not seen. -/
theorem amTrace_clear (L : SrslteBit) (st : RlcAm) (calls : List AmCall) :
    trace (amObserve L) st calls
      = trace (amObserve L) { st with pdcp := [], maxRetxAttempted := 0 } calls := by
  cases calls with
  | nil => rfl
  | cons c cs => rfl

/-- Where nothing is left over, a reset and a `configure` make the state one of a new entity, up to
the hidden parts. -/
theorem AmResettable.sim (h : AmResettable t st) (cnfg : AmConfig) :
    AmSim t { configure (reset st) cnfg with pdcp := [], maxRetxAttempted := 0 }
      (configure {} cnfg) := by
  refine ⟨hiddenOf (configure (reset st) cnfg), ?_, ?_⟩
  · unfold configure reset withHidden hiddenOf
    rw [h.txSdu, h.status]
    rfl
  · refine { rxSdu := ?_, reordering := .inr ⟨rfl, rfl⟩, pollRetx := .inr ⟨h.pollRetx, rfl⟩
             statusProhibit := .inr ⟨h.statusProhibit, rfl⟩ }
    show (st.rxSdu.map fun _ => []).getD [] = []
    cases st.rxSdu <;> rfl

/-- Such a state shows what a new entity shows: the run of the one simulates the run of the other.
-/
theorem AmResettable.amForgets (h : AmResettable t st) : AmForgets L t st := by
  intro cnfg calls hclock
  have htrace : trace (amObserve L) (configure (reset st) cnfg) calls
      = trace (amObserve L) (configure {} cnfg) calls := by
    rw [amTrace_clear]
    exact trace_eq_of_sim (R := AmSim t) (K := NotBefore t)
      (fun _ _ c hsim hc => amObserve_sim (c := c) L hsim hc) hclock.notBefore (h.sim cnfg)
  exact ⟨htrace, htrace⟩

/-! ### Calls that tell them apart -/

/-- Equal traces that start with `read_pdu` start with equal PDUs. -/
theorem readPdu_eq_of_trace {s f : RlcAm} {now n : Nat} {calls : List AmCall}
    (h : trace (amObserve L) s (.readPdu now n :: calls)
      = trace (amObserve L) f (.readPdu now n :: calls)) :
    (readPdu L { s with pdcp := [], maxRetxAttempted := 0 } now n).map (·.2)
      = (readPdu L { f with pdcp := [], maxRetxAttempted := 0 } now n).map (·.2) := by
  have hhead := congrArg List.head? h
  rw [head?_trace, head?_trace] at hhead
  have hpayload := congrArg (fun o => (o.map fun o => o.map AmOutput.payload)) hhead
  simpa [amObserve, amResult, Function.comp_def] using hpayload

/-- A `tx_sdu` that `reset` has emptied but kept makes the next `read_pdu` send an empty PDU. -/
theorem AmForgets.txSdu (h : AmForgets L t st) : st.txSdu = none := by
  by_contra hne
  obtain ⟨sdu, hsdu⟩ := Option.ne_none_iff_exists'.mp hne
  have hpdu := readPdu_eq_of_trace (h {} [.readPdu t 10] ⟨Nat.le_refl t, trivial⟩).1
  have hnew : (readPdu L { configure {} {} with pdcp := [], maxRetxAttempted := 0 } t 10).map (·.2)
      = some [] := rfl
  rw [hnew] at hpdu
  simp [readPdu, configure, reset, hsdu, buildDataPdu, fillPdu, pullSdus, PduBuild.addSdu,
    amPackedLength, pduBytes, writeDataPduHeader] at hpdu

/-- A poll retransmit timeout that goes on running sets the poll bit of a later PDU. -/
theorem AmForgets.pollRetx (h : AmForgets L t st) : st.pollRetxTimeout.running = false := by
  have hsdu := h.txSdu
  rw [← Bool.not_eq_true]
  intro hrun
  -- A time at which the timeout has expired.
  obtain ⟨now, hnow, hexp⟩ : ∃ now, t ≤ now ∧ st.pollRetxTimeout.stopTime < now :=
    ⟨max t (st.pollRetxTimeout.stopTime + 1), by omega, by omega⟩
  have htrace := (h {} [.writeSdu [0], .readPdu now 10] ⟨Nat.le_refl t, hnow, trivial⟩).1
  have hreset : amObserve L (configure (reset st) {}) (.writeSdu [0])
      = some ({ configure (reset st) {} with
          txSduQueue := [[0]], pdcp := [], maxRetxAttempted := 0 }, {}) := rfl
  have hnew : amObserve L (configure {} {}) (.writeSdu [0])
      = some ({ configure {} {} with txSduQueue := [[0]] }, {}) := rfl
  rw [trace_cons hreset, trace_cons hnew, List.cons.injEq] at htrace
  have hpdu := readPdu_eq_of_trace htrace.2
  simp [readPdu, configure, reset, hsdu, buildDataPdu, fillPdu, pullSdus, PduBuild.addSdu,
    amPackedLength, pduBytes, pollRequired, SrsUE.Rlc.pollRetx, Timeout.expired, hrun, hexp,
    setPoll] at hpdu
  revert hpdu
  decide

/-- A data PDU with SN 600 and the poll bit, outside of the window of an entity that has received
nothing. -/
def polledOutside : Bytes := [0xA2, 0x58]

/-- It requests a status PDU and does nothing else. -/
theorem amObserve_polledOutside {s : RlcAm} (hR : s.vrR = 0) (hMr : s.vrMr = 512) (now : Nat) :
    amObserve L s (.writePdu now polledOutside)
      = some ({ s with doStatus := true, pdcp := [], maxRetxAttempted := 0 }, {}) := by
  have hin : insideRxWindow { s with pdcp := [], maxRetxAttempted := 0 } 600 = false := by
    unfold insideRxWindow RlcAm.rxModBase
    simp only [hR, hMr]
    decide
  have hread : readDataPduHeader [0xA2, 0x58]
      = some ({ dc := .dataPdu, p := true, sn := 600 }, []) := by decide
  have hcontrol : isControlPdu 0xA2 = false := by decide
  have hwrite : writePdu L { s with pdcp := [], maxRetxAttempted := 0 } now polledOutside
      = some { s with doStatus := true, pdcp := [], maxRetxAttempted := 0 } := by
    simp only [writePdu, polledOutside, hcontrol, hread, Bool.false_eq_true, if_false,
      Option.bind_eq_bind, Option.bind_some, handleDataPdu, hin, Bool.not_false, if_true,
      pollDiscarded, Bool.or_true]
  rw [amObserve, amResult, hwrite]
  rfl

/-- After a poll from outside the window a reset entity sends the PDU that a new one sends. -/
theorem AmForgets.statusPdu (h : AmForgets L t st) {now : Nat} (hnow : t ≤ now) (n : Nat) :
    (readPdu L { configure (reset st) {} with
        doStatus := true, pdcp := [], maxRetxAttempted := 0 } now n).map (·.2)
      = (readPdu L { configure {} {} with doStatus := true } now n).map (·.2) := by
  have htrace := (h {} [.writePdu t polledOutside, .readPdu now n]
    ⟨Nat.le_refl t, hnow, trivial⟩).1
  rw [trace_cons (amObserve_polledOutside rfl rfl t),
    trace_cons (amObserve_polledOutside rfl rfl t), List.cons.injEq] at htrace
  exact readPdu_eq_of_trace htrace.2

/-- A status prohibit timeout that goes on running suppresses the answer to a poll. -/
theorem AmForgets.statusProhibit (h : AmForgets L t st)
    (hrun : st.statusProhibitTimeout.running = true) : st.statusProhibitTimeout.stopTime < t := by
  by_contra hlate
  have hpdu := h.statusPdu (Nat.le_refl t) 2
  have hnew : (readPdu L { configure {} {} with doStatus := true } t 2).map (·.2)
      = some (writeStatusPdu L {}) := rfl
  have hreset : (readPdu L { configure (reset st) {} with
      doStatus := true, pdcp := [], maxRetxAttempted := 0 } t 2).map (·.2) = some [] := by
    simp [readPdu, configure, reset, h.txSdu, statusProhibited, Timeout.expired, hrun, hlate,
      buildDataPdu, pduBytes]
  rw [hnew, hreset, Option.some.injEq] at hpdu
  have hlen := length_writeStatusPdu L {}
  rw [← hpdu] at hlen
  simp [statusPackedLength, statusLengthBits] at hlen

/-- A stored status report is sent as it was before the reset. -/
theorem AmForgets.status (h : AmForgets L t st) (inv : AmLifeInv st) : st.status = {} := by
  obtain ⟨r, ms, hat⟩ := inv.status
  -- A time at which the status prohibit timeout has expired, and room for both reports.
  obtain ⟨now, hnow, hexp⟩ : ∃ now, t ≤ now ∧ st.statusProhibitTimeout.stopTime < now :=
    ⟨max t (st.statusProhibitTimeout.stopTime + 1), by omega, by omega⟩
  have hpdu := h.statusPdu hnow (statusPackedLength st.status + 2)
  have hnew : (readPdu L { configure {} {} with doStatus := true } now
      (statusPackedLength st.status + 2)).map (·.2) = some (writeStatusPdu L {}) := by
    simp [readPdu, configure, statusProhibited, buildStatusPdu, statusPackedLength,
      statusLengthBits]
  have hreset : (readPdu L { configure (reset st) {} with
      doStatus := true, pdcp := [], maxRetxAttempted := 0 } now
        (statusPackedLength st.status + 2)).map (·.2) = some (writeStatusPdu L st.status) := by
    simp [readPdu, configure, reset, statusProhibited, Timeout.expired, hexp, buildStatusPdu]
  rw [hnew, hreset, Option.some.injEq] at hpdu
  -- Equal PDUs read back to equal reports.
  have hread := readStatusPdu_write L st.status hat.length_le
  rw [hpdu, readStatusPdu_write L {} (Nat.zero_le _), Option.some.injEq, wireStatus, wireStatus,
    StatusPdu.mk.injEq] at hread
  obtain ⟨hack, hnacks⟩ := hread
  have hack : 0 % 1024 = st.status.ackSn % 1024 := hack
  have hack' := hat.ackSn
  have hnil : st.status.nacks = [] := List.map_eq_nil_iff.mp hnacks.symm
  have hzero : st.status.ackSn = 0 := by omega
  show (⟨st.status.ackSn, st.status.nacks⟩ : StatusPdu) = _
  rw [hnil, hzero]

/-- A reset of an entity that has run in any way leaves no trace exactly if there is nothing that
`reset` does not clear. -/
theorem amForgets_iff (hs : AmReachable L st) (t : Nat) : AmForgets L t st ↔ AmResettable t st := by
  constructor
  · intro h
    exact { txSdu := h.txSdu, status := h.status hs.inv, pollRetx := h.pollRetx
            statusProhibit := h.statusProhibit }
  · exact AmResettable.amForgets

end

end SrsUE.Proofs.Rlc
