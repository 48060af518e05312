import SrsUE.Proofs.Rlc.AmReset
import SrsUE.Proofs.Rlc.UmWindow

/-!
# `SrsUE.Proofs.Rlc.UmReset`: what a reset of `rlc_um` forgets

As in `SrsUE.Proofs.Rlc.AmReset`, a reset entity and a new one are compared by their traces.
`reset` leaves two things behind. The buffer of `tx_sdu` is emptied but kept, and the next
`read_pdu` sends it. `vr_ur_in_rx_sdu` keeps its number, and the first PDU with length indicators
is compared with it (`umForgets_iff`).

`reset_forgets_iff` puts the two kinds of entities together.
-/

set_option autoImplicit false

namespace SrsUE.Proofs.Rlc

open SrsUE.Lib
open SrsUE.Rlc (Bytes FiField SrslteBit RlcAm Timer UmdSnSize UmdPduHeader sub32)
open SrsUE.Rlc.Um

/-! ### What a call shows -/

/-- The calls that PDCP, MAC and the timers make on an entity. -/
inductive UmEntityCall where
  | writeSdu (sdu : Bytes)
  | readPdu (nofBytes : Nat)
  | getBufferState
  | writePdu (payload : Bytes)
  | timerStep
  | reset
deriving DecidableEq, Repr

/-- What the outside sees of a call. -/
structure UmOutput where
  payload : Bytes := []
  bufferState : Nat := 0
  delivered : List Bytes := []
deriving DecidableEq, Repr

/-- A call on the transmit half. -/
def umTxResult (tx : RlcUm) : UmEntityCall → Option (RlcUm × UmOutput)
  | .writeSdu sdu => (writeSdu tx sdu).map fun tx => (tx, {})
  | .readPdu n => some ((readPdu tx n).1, { payload := (readPdu tx n).2 })
  | .getBufferState => some (tx, { bufferState := getBufferState tx })
  | .reset => some (tx.reset, {})
  | .writePdu _ => some (tx, {})
  | .timerStep => some (tx, {})

/-- A call on the receive half. -/
def umRxResult (rx : RlcUmRx) : UmEntityCall → Option RlcUmRx
  | .writePdu payload => handleDataPdu rx payload
  | .timerStep => some (stepReorderingTimer rx)
  | .reset => some rx.reset
  | _ => some rx

/-- A call and what it shows. The record of SDUs starts anew with each call. -/
def umObserve (e : UmEntity) (c : UmEntityCall) : Option (UmEntity × UmOutput) := do
  let (tx, out) ← umTxResult e.tx c
  let rx ← umRxResult { e.rx with pdcp := [] } c
  some ({ tx := tx, rx := rx }, { out with delivered := rx.pdcp })

/-- The calls that are made on a bearer with this configuration. One that only transmits gets no
PDUs, and the timer of one never runs. -/
def Covers : UmConfig → UmEntityCall → Prop
  | .umBi .., _ => True
  | .umUniUl _, .writePdu _ => False
  | .umUniUl _, .timerStep => False
  | .umUniUl _, _ => True
  | .umUniDl .., .writeSdu _ => False
  | .umUniDl .., .readPdu _ => False
  | .umUniDl .., .getBufferState => False
  | .umUniDl .., _ => True

/-! ### The hidden parts of the receive half -/

/-- Equal timers, or two that do not run. -/
def TimerSim (a b : Timer) : Prop := a = b ∨ a.running = false ∧ b.running = false

/-- The state with another SN in `vr_ur_in_rx_sdu` and another timer. -/
def withUmHidden (st : RlcUmRx) (last : Nat) (timer : Timer) : RlcUmRx :=
  { st with vrUrInRxSdu := last, reorderingTimer := timer }

/-- The states cannot be told apart: the SNs in `vr_ur_in_rx_sdu` are equal modulo `rx_mod`. -/
def UmRxSim (s f : RlcUmRx) : Prop :=
  ∃ last timer, s = withUmHidden f last timer ∧
    (last + 1) % f.rxMod = (f.vrUrInRxSdu + 1) % f.rxMod ∧ TimerSim timer f.reorderingTimer

section
variable {a b : Timer}

/-- Timers that cannot be told apart both run or both do not. -/
theorem TimerSim.isRunning (h : TimerSim a b) : a.isRunning = b.isRunning := by
  rcases h with rfl | ⟨ha, hb⟩
  · rfl
  · rw [Timer.isRunning, Timer.isRunning, ha, hb, Bool.and_false, Bool.and_false]

/-- Any two timers are alike once they are stopped. -/
theorem timerSim_stop (a b : Timer) : TimerSim a.stop b.stop := .inr ⟨rfl, rfl⟩

/-- A timer that is set and run has forgotten what it was. -/
theorem timerSim_start (a b : Timer) (t : Nat) : TimerSim (a.set t).run (b.set t).run := .inl rfl

/-- Such timers expire in the same step. -/
theorem TimerSim.step (h : TimerSim a b) : TimerSim a.step.1 b.step.1 ∧ a.step.2 = b.step.2 := by
  rcases h with rfl | ⟨ha, hb⟩
  · exact ⟨.inl rfl, rfl⟩
  · rw [Timer.step, Timer.step, ha, hb]
    exact ⟨.inr ⟨ha, hb⟩, rfl⟩

end

section
variable {s f : RlcUmRx}

/-- The loop over the length indicators compares `vr_ur` with `vr_ur_in_rx_sdu` only. -/
theorem reassembleLis_sim (fi : FiField) (lis : List Nat) (buf : Bytes) {last : Nat} {timer : Timer}
    (hlast : (last + 1) % f.rxMod = (f.vrUrInRxSdu + 1) % f.rxMod) :
    reassembleLis fi lis buf (withUmHidden f last timer)
      = (withUmHidden (reassembleLis fi lis buf f).1 last timer,
          (reassembleLis fi lis buf f).2) := by
  induction lis generalizing buf f with
  | nil => rfl
  | cons len lis ih =>
    rw [reassembleLis, reassembleLis]
    have hdrop : (withUmHidden f last timer).vrUr
          ≠ ((withUmHidden f last timer).vrUrInRxSdu + 1) % (withUmHidden f last timer).rxMod
        ↔ f.vrUr ≠ (f.vrUrInRxSdu + 1) % f.rxMod := by
      show f.vrUr ≠ (last + 1) % f.rxMod ↔ _
      rw [hlast]
    rw [decide_eq_decide.mpr hdrop]
    exact ih (buf.drop len) (f := { f with rxSdu := f.rxSdu ++ buf.take len }.finishSdu _) hlast

/-- A PDU is reassembled alike: the SNs are compared modulo `rx_mod`. -/
theorem UmRxSim.reassemblePdu (h : UmRxSim s f) (pdu : UmdPdu) :
    UmRxSim (SrsUE.Rlc.Um.reassemblePdu s pdu) (SrsUE.Rlc.Um.reassemblePdu f pdu) := by
  obtain ⟨last, timer, rfl, hlast, htimer⟩ := h
  obtain ⟨_, _, _, hframe⟩ := umReassembleLis_frame pdu.header.fi pdu.header.li pdu.buf f
  unfold SrsUE.Rlc.Um.reassemblePdu
  rw [reassembleLis_sim _ _ _ hlast]
  -- The last segment writes `vr_ur` to `vr_ur_in_rx_sdu`, whatever was there.
  unfold reassembleLast
  simp only [hframe]
  split
  · exact ⟨f.vrUr, timer, rfl, rfl, htimer⟩
  · exact ⟨f.vrUr, timer, rfl, rfl, htimer⟩

/-- `vr_ur` moves on in both states. -/
theorem UmRxSim.advance (h : UmRxSim s f) : UmRxSim s.advance f.advance := by
  obtain ⟨last, timer, rfl, hlast, htimer⟩ := h
  exact ⟨last, timer, rfl, hlast, htimer⟩

/-- One round of the first loop of reassembly. -/
theorem UmRxSim.catchUpRound (h : UmRxSim s f) :
    UmRxSim (SrsUE.Rlc.Um.catchUpRound s) (SrsUE.Rlc.Um.catchUpRound f) := by
  have hpdu := fun pdu => (h.reassemblePdu pdu).advance
  obtain ⟨last, timer, rfl, hlast, htimer⟩ := h
  unfold SrsUE.Rlc.Um.catchUpRound
  have hw : (withUmHidden f last timer).rxWindow (withUmHidden f last timer).vrUr
      = f.rxWindow f.vrUr := rfl
  rw [hw]
  cases f.rxWindow f.vrUr with
  | none => exact ⟨last, timer, rfl, hlast, htimer⟩
  | some pdu => exact hpdu pdu

/-- The first loop of reassembly. Induction on the rounds. -/
theorem UmRxSim.catchUp (rounds : Nat) (h : UmRxSim s f) :
    UmRxSim (SrsUE.Rlc.Um.catchUp rounds s) (SrsUE.Rlc.Um.catchUp rounds f) := by
  induction rounds generalizing s f with
  | zero => exact h
  | succ rounds ih =>
    have hround := ih h.catchUpRound
    rw [SrsUE.Rlc.Um.catchUp, SrsUE.Rlc.Um.catchUp]
    refine ite_rel (R := UmRxSim) ?_ (fun _ => h) (fun _ => hround)
    obtain ⟨last, timer, rfl, -⟩ := h
    exact Iff.rfl

/-- The second loop of reassembly. Induction on the rounds. -/
theorem UmRxSim.updateVrUr (rounds : Nat) (h : UmRxSim s f) :
    UmRxSim (SrsUE.Rlc.Um.updateVrUr rounds s) (SrsUE.Rlc.Um.updateVrUr rounds f) := by
  induction rounds generalizing s f with
  | zero => exact h
  | succ rounds ih =>
    have hw : s.rxWindow s.vrUr = f.rxWindow f.vrUr := by
      obtain ⟨last, timer, rfl, -⟩ := h
      rfl
    rw [SrsUE.Rlc.Um.updateVrUr, SrsUE.Rlc.Um.updateVrUr, hw]
    cases f.rxWindow f.vrUr with
    | none => exact h
    | some pdu => exact ih (h.reassemblePdu pdu).advance

/-- `reassemble_rx_sdus` is the two loops. -/
theorem UmRxSim.reassembleRxSdus (h : UmRxSim s f) :
    UmRxSim (SrsUE.Rlc.Um.reassembleRxSdus s) (SrsUE.Rlc.Um.reassembleRxSdus f) := by
  have hmod : s.rxMod = f.rxMod := by
    obtain ⟨last, timer, rfl, -⟩ := h
    rfl
  unfold SrsUE.Rlc.Um.reassembleRxSdus
  rw [hmod]
  exact (h.catchUp _).updateVrUr _

/-- The timer is started in both states or in neither. -/
theorem UmRxSim.startReordering (h : UmRxSim s f) :
    UmRxSim (SrsUE.Rlc.Um.startReordering s) (SrsUE.Rlc.Um.startReordering f) := by
  obtain ⟨last, timer, rfl, hlast, htimer⟩ := h
  unfold SrsUE.Rlc.Um.startReordering
  refine ite_rel (R := UmRxSim) Iff.rfl (fun _ => ?_)
    (fun _ => ⟨last, timer, rfl, hlast, htimer⟩)
  exact ⟨last, (timer.set f.tReordering).run, rfl, hlast, timerSim_start _ _ _⟩

/-- Stopped timers are alike. -/
theorem UmRxSim.stopReordering (h : UmRxSim s f) :
    UmRxSim { s with reorderingTimer := s.reorderingTimer.stop }
      { f with reorderingTimer := f.reorderingTimer.stop } := by
  obtain ⟨last, timer, rfl, hlast, -⟩ := h
  exact ⟨last, timer.stop, rfl, hlast, timerSim_stop _ _⟩

/-- The timers of the states are alike. -/
theorem UmRxSim.timer (h : UmRxSim s f) : TimerSim s.reorderingTimer f.reorderingTimer := by
  obtain ⟨last, timer, rfl, -, htimer⟩ := h
  exact htimer

/-- `handle_data_pdu` looks at the timer at its end: both states stop it, start it or leave it. -/
theorem UmRxSim.updateReordering (h : UmRxSim s f) :
    UmRxSim (SrsUE.Rlc.Um.updateReordering s) (SrsUE.Rlc.Um.updateReordering f) := by
  unfold SrsUE.Rlc.Um.updateReordering
  have hstart : ∀ {s f : RlcUmRx}, UmRxSim s f →
      UmRxSim (if s.reorderingTimer.isRunning then s else SrsUE.Rlc.Um.startReordering s)
        (if f.reorderingTimer.isRunning then f else SrsUE.Rlc.Um.startReordering f) := by
    intro s f h
    refine ite_rel (R := UmRxSim) ?_ (fun _ => h) (fun _ => h.startReordering)
    rw [h.timer.isRunning]
  refine hstart (ite_rel (R := UmRxSim) ?_ (fun _ => h.stopReordering) (fun _ => h))
  rw [h.timer.isRunning]
  obtain ⟨last, timer, rfl, -⟩ := h
  exact Iff.rfl

/-- A PDU is kept by both states or by neither, and leaves them alike. -/
theorem UmRxSim.receivePdu (h : UmRxSim s f) (header : UmdPduHeader) (buf : Bytes) :
    UmRxSim (SrsUE.Rlc.Um.receivePdu s header buf) (SrsUE.Rlc.Um.receivePdu f header buf) := by
  have hstore : UmRxSim (storeDataPdu s header buf) (storeDataPdu f header buf) := by
    obtain ⟨last, timer, rfl, hlast, htimer⟩ := h
    unfold storeDataPdu
    exact ite_rel (R := UmRxSim) Iff.rfl (fun _ => ⟨last, timer, rfl, hlast, htimer⟩)
      (fun _ => ⟨last, timer, rfl, hlast, htimer⟩)
  have hkept := hstore.reassembleRxSdus.updateReordering
  obtain ⟨last, timer, rfl, hlast, htimer⟩ := h
  unfold SrsUE.Rlc.Um.receivePdu
  refine ite_rel (R := UmRxSim) Iff.rfl (fun _ => ⟨last, timer, rfl, hlast, htimer⟩)
    (fun _ => ?_)
  exact ite_rel (R := UmRxSim) Iff.rfl (fun _ => ⟨last, timer, rfl, hlast, htimer⟩)
    (fun _ => hkept)

/-- The loop of `timer_expired`. Induction on the rounds. -/
theorem UmRxSim.skipMissing (rounds : Nat) (h : UmRxSim s f) :
    UmRxSim (SrsUE.Rlc.Um.skipMissing rounds s) (SrsUE.Rlc.Um.skipMissing rounds f) := by
  induction rounds generalizing s f with
  | zero => exact h
  | succ rounds ih =>
    have hround := ih h.advance.reassembleRxSdus
    rw [SrsUE.Rlc.Um.skipMissing, SrsUE.Rlc.Um.skipMissing]
    refine ite_rel (R := UmRxSim) ?_ (fun _ => hround) (fun _ => h)
    obtain ⟨last, timer, rfl, -⟩ := h
    exact Iff.rfl

/-- The expiry of the timer leaves the states alike. -/
theorem UmRxSim.timerExpired (h : UmRxSim s f) :
    UmRxSim (SrsUE.Rlc.Um.timerExpired s) (SrsUE.Rlc.Um.timerExpired f) := by
  obtain ⟨last, timer, rfl, hlast, htimer⟩ := h
  have hlost : UmRxSim { withUmHidden f last timer with pduLost := true, rxSdu := [] }
      { f with pduLost := true, rxSdu := [] } := ⟨last, timer, rfl, hlast, htimer⟩
  exact (hlost.skipMissing f.rxMod).stopReordering.startReordering

/-- So does a step of the timer. -/
theorem UmRxSim.stepReorderingTimer (h : UmRxSim s f) :
    UmRxSim (SrsUE.Rlc.Um.stepReorderingTimer s) (SrsUE.Rlc.Um.stepReorderingTimer f) := by
  obtain ⟨hsim, hexp⟩ := h.timer.step
  have hst : UmRxSim { s with reorderingTimer := s.reorderingTimer.step.1 }
      { f with reorderingTimer := f.reorderingTimer.step.1 } := by
    obtain ⟨last, timer, rfl, hlast, -⟩ := h
    exact ⟨last, _, rfl, hlast, hsim⟩
  unfold SrsUE.Rlc.Um.stepReorderingTimer
  refine ite_rel (R := UmRxSim) ?_ (fun _ => hst.timerExpired) (fun _ => hst)
  show s.reorderingTimer.step.2 = true ↔ f.reorderingTimer.step.2 = true
  rw [hexp]

/-- So does a reset. -/
theorem UmRxSim.reset (h : UmRxSim s f) : UmRxSim s.reset f.reset := by
  obtain ⟨last, timer, rfl, hlast, -⟩ := h
  exact ⟨last, timer.stop, rfl, hlast, timerSim_stop _ _⟩

/-- No call tells the hidden parts of the receive half apart. -/
theorem umRxResult_sim (h : UmRxSim s f) (c : UmEntityCall) :
    Option.Rel UmRxSim (umRxResult s c) (umRxResult f c) := by
  cases c with
  | writePdu payload =>
    have hsn : s.rxSnFieldLength = f.rxSnFieldLength := by
      obtain ⟨last, timer, rfl, -⟩ := h
      rfl
    show Option.Rel UmRxSim (handleDataPdu s payload) (handleDataPdu f payload)
    unfold handleDataPdu
    rw [hsn]
    cases readDataPduHeader f.rxSnFieldLength payload with
    | none => exact .none
    | some r => exact .some (h.receivePdu r.1 r.2)
  | timerStep => exact .some h.stepReorderingTimer
  | reset => exact .some h.reset
  | _ => exact .some h

end

/-! ### Reset entities and new ones -/

/-- After a reset, alone or through `rlc_entity`, and a `configure` the entity shows what a new one
would show. -/
def UmForgets (e : UmEntity) : Prop :=
  ∀ cnfg calls, (∀ c ∈ calls, Covers cnfg c) → ∀ rxSn t txSn,
    trace umObserve (e.reset.configure cnfg) calls
        = trace umObserve ((newUm rxSn t txSn).configure cnfg) calls ∧
      trace umObserve (e.entityReset.configure cnfg) calls
        = trace umObserve ((newUm rxSn t txSn).configure cnfg) calls

/-- There is nothing that `reset` does not clear: no SDU is partly sent, and `vr_ur_in_rx_sdu` has
the number that the constructor gives it, up to a multiple of every `rx_mod`. -/
structure UmResettable (e : UmEntity) : Prop where
  txSdu : e.tx.txSdu = none
  last : e.rx.vrUrInRxSdu % 1024 = 0

/-- A bearer with this configuration transmits. -/
def Transmits : UmConfig → Prop
  | .umUniDl .. => False
  | _ => True

/-- A bearer with this configuration receives. -/
def Receives : UmConfig → Prop
  | .umUniUl _ => False
  | _ => True

/-- What the calls on a bearer with this configuration cannot tell apart. -/
structure UmSim (cnfg : UmConfig) (s f : UmEntity) : Prop where
  tx : Transmits cnfg → s.tx = f.tx
  rx : Receives cnfg → UmRxSim { s.rx with pdcp := [] } { f.rx with pdcp := [] }

section
variable {cnfg : UmConfig} {s f e : UmEntity} {c : UmEntityCall}

/-- A call on the transmit half shows the same in both entities. -/
theorem umTxResult_sim (h : UmSim cnfg s f) (hc : Covers cnfg c) :
    Option.Rel (fun x y => (Transmits cnfg → x.1 = y.1) ∧ x.2 = y.2) (umTxResult s.tx c)
      (umTxResult f.tx c) := by
  by_cases ht : Transmits cnfg
  · rw [h.tx ht]
    cases umTxResult f.tx c with
    | none => exact .none
    | some r => exact .some ⟨fun _ => rfl, rfl⟩
  · -- Only calls that leave nothing to see in this half are made.
    have hno : ∀ {x y : RlcUm}, Transmits cnfg → x = y := fun h => absurd h ht
    cases cnfg with
    | umBi => exact absurd trivial ht
    | umUniUl => exact absurd trivial ht
    | umUniDl =>
      cases c with
      | writeSdu => exact hc.elim
      | readPdu => exact hc.elim
      | getBufferState => exact hc.elim
      | writePdu => exact .some ⟨hno, rfl⟩
      | timerStep => exact .some ⟨hno, rfl⟩
      | reset => exact .some ⟨hno, rfl⟩

/-- A call on the receive half hands over the same SDUs in both entities. -/
theorem umRxResult_half_sim (h : UmSim cnfg s f) (hc : Covers cnfg c) :
    Option.Rel (fun x y => (Receives cnfg → UmRxSim x y) ∧ x.pdcp = y.pdcp)
      (umRxResult { s.rx with pdcp := [] } c) (umRxResult { f.rx with pdcp := [] } c) := by
  by_cases hr : Receives cnfg
  · have hrel := umRxResult_sim (h.rx hr) c
    generalize umRxResult { s.rx with pdcp := [] } c = x at hrel
    generalize umRxResult { f.rx with pdcp := [] } c = y at hrel
    cases hrel with
    | none => exact .none
    | some hsim =>
      refine .some ⟨fun _ => hsim, ?_⟩
      obtain ⟨last, timer, rfl, -⟩ := hsim
      rfl
  · have hno : ∀ {x y : RlcUmRx}, Receives cnfg → UmRxSim x y := fun h => absurd h hr
    cases cnfg with
    | umBi => exact absurd trivial hr
    | umUniDl => exact absurd trivial hr
    | umUniUl =>
      cases c with
      | writePdu => exact hc.elim
      | timerStep => exact hc.elim
      | writeSdu => exact .some ⟨hno, rfl⟩
      | readPdu => exact .some ⟨hno, rfl⟩
      | getBufferState => exact .some ⟨hno, rfl⟩
      | reset => exact .some ⟨hno, rfl⟩

/-- Every call that the bearer covers shows the same in both entities, and leaves them alike. -/
theorem umObserve_sim (h : UmSim cnfg s f) (hc : Covers cnfg c) :
    Option.Rel (fun x y => UmSim cnfg x.1 y.1 ∧ x.2 = y.2) (umObserve s c) (umObserve f c) := by
  have htx := umTxResult_sim h hc
  have hrx := umRxResult_half_sim h hc
  unfold umObserve
  generalize umTxResult s.tx c = x at htx
  generalize umTxResult f.tx c = y at htx
  generalize umRxResult { s.rx with pdcp := [] } c = x' at hrx
  generalize umRxResult { f.rx with pdcp := [] } c = y' at hrx
  cases htx with
  | none => exact .none
  | some ht =>
    cases hrx with
    | none => exact .none
    | some hr =>
      refine .some ⟨{ tx := ht.1, rx := ?_ }, ?_⟩
      · intro hrec
        obtain ⟨last, timer, rfl, hlast, htimer⟩ := hr.1 hrec
        exact ⟨last, timer, rfl, hlast, htimer⟩
      · simp only [ht.2, hr.2]

/-- Where nothing is left over, a reset and a `configure` make the entity like a new one. -/
theorem UmResettable.sim (h : UmResettable e) (cnfg : UmConfig) (rxSn : UmdSnSize) (t : Nat)
    (txSn : UmdSnSize) :
    UmSim cnfg (e.reset.configure cnfg) ((newUm rxSn t txSn).configure cnfg) ∧
      UmSim cnfg (e.entityReset.configure cnfg) ((newUm rxSn t txSn).configure cnfg) := by
  have htx : ∀ sn, e.tx.reset.reconfigure sn = (configure txSn).reconfigure sn := by
    intro sn
    unfold RlcUm.reset
    rw [h.txSdu]
    rfl
  -- `vr_ur_in_rx_sdu` is a multiple of `rx_mod` for both sizes of the sequence numbers.
  have hlast : ∀ sn t, (e.rx.vrUrInRxSdu + 1) % (configureRx sn t).rxMod
      = (0 + 1) % (configureRx sn t).rxMod := by
    have h0 := h.last
    intro sn t
    cases sn
    · show (e.rx.vrUrInRxSdu + 1) % 32 = (0 + 1) % 32
      omega
    · show (e.rx.vrUrInRxSdu + 1) % 1024 = (0 + 1) % 1024
      omega
  have hrx : ∀ sn t' (timer : Timer), timer.running = false →
      UmRxSim { e.rx.reset.reconfigure sn t' with reorderingTimer := timer, pdcp := [] }
        { (configureRx rxSn t).reconfigure sn t' with pdcp := [] } := fun sn t' timer hoff =>
    ⟨e.rx.vrUrInRxSdu, timer, rfl, hlast sn t', .inr ⟨hoff, rfl⟩⟩
  cases cnfg with
  | umBi sn t' sn' =>
    exact ⟨{ tx := fun _ => htx sn', rx := fun _ => hrx sn t' _ rfl },
      { tx := fun _ => htx sn', rx := fun _ => hrx sn t' _ rfl }⟩
  | umUniUl sn' =>
    exact ⟨{ tx := fun _ => htx sn', rx := fun hr => hr.elim },
      { tx := fun _ => htx sn', rx := fun hr => hr.elim }⟩
  | umUniDl sn t' =>
    exact ⟨{ tx := fun ht => ht.elim, rx := fun _ => hrx sn t' _ rfl },
      { tx := fun ht => ht.elim, rx := fun _ => hrx sn t' _ rfl }⟩

/-- Such an entity shows what a new one shows: the run of the one simulates the run of the other. -/
theorem UmResettable.forgets (h : UmResettable e) : UmForgets e := by
  intro cnfg calls hcover rxSn t txSn
  obtain ⟨hreset, hentity⟩ := h.sim cnfg rxSn t txSn
  exact ⟨trace_eq_of_sim (R := UmSim cnfg) (K := Covers cnfg)
      (fun _ _ c hsim hc => umObserve_sim (c := c) hsim hc) hcover hreset,
    trace_eq_of_sim (R := UmSim cnfg) (K := Covers cnfg)
      (fun _ _ c hsim hc => umObserve_sim (c := c) hsim hc) hcover hentity⟩

end

/-! ### Calls that tell them apart -/

/-- A PDU with SN 1 that holds the SDUs `[7]` and `[8]`. -/
def twoSduPdu : UmdPdu := { header := { snSize := .size10Bits, sn := 1, li := [1] }, buf := [7, 8] }

/-- A reset receiver, with `last` in `vr_ur_in_rx_sdu`, that has PDU 1 in `rx_window`. -/
def withTwoSdus (last vrUh : Nat) (timer : Timer) : RlcUmRx :=
  { configureRx .size10Bits 5 with
    rxWindow := Dict.empty.insert 1 twoSduPdu, vrUh := vrUh, vrUrInRxSdu := last
    reorderingTimer := timer }

/-- Reassembly does nothing when the PDU at `vr_ur` is missing and inside of the window. -/
theorem umReassembleRxSdus_of_inside {st : RlcUmRx} (hin : st.insideReorderingWindow st.vrUr = true)
    (hmiss : st.rxWindow st.vrUr = none) : reassembleRxSdus st = st := by
  have hcatch : ∀ rounds, catchUp rounds st = st := by
    intro rounds
    cases rounds with
    | zero => rfl
    | succ rounds => rw [catchUp, if_pos hin]
  rw [reassembleRxSdus, hcatch]
  cases st.rxMod with
  | zero => rfl
  | succ rounds => rw [updateVrUr, hmiss]

/-- PDU 1 waits for PDU 0. -/
theorem handleDataPdu_twoSdus (last : Nat) (timer : Timer) (hoff : timer.running = false) :
    handleDataPdu { configureRx .size10Bits 5 with vrUrInRxSdu := last, reorderingTimer := timer }
        [0x04, 0x01, 0x00, 0x10, 7, 8]
      = some { withTwoSdus last 2 { timeout := 5, counter := 0, running := true } with
          vrUx := 2 } := by
  have hread : readDataPduHeader .size10Bits [0x04, 0x01, 0x00, 0x10, 7, 8]
      = some (twoSduPdu.header, twoSduPdu.buf) := by decide
  have hrun : timer.isRunning = false := by rw [Timer.isRunning, hoff, Bool.and_false]
  have hstore : storeDataPdu
      { configureRx .size10Bits 5 with vrUrInRxSdu := last, reorderingTimer := timer }
      twoSduPdu.header twoSduPdu.buf = withTwoSdus last 2 timer := by
    simp [storeDataPdu, RlcUmRx.insideReorderingWindow, RlcUmRx.rxModBase, sub32, configureRx,
      twoSduPdu, withTwoSdus]
  have hre : reassembleRxSdus (withTwoSdus last 2 timer) = withTwoSdus last 2 timer := by
    refine umReassembleRxSdus_of_inside ?_ rfl
    simp [RlcUmRx.insideReorderingWindow, RlcUmRx.rxModBase, sub32, configureRx, withTwoSdus]
  have hstart : updateReordering (withTwoSdus last 2 timer)
      = { withTwoSdus last 2 { timeout := 5, counter := 0, running := true } with vrUx := 2 } := by
    rw [umUpdateReordering_of_off hrun]
    simp [startReordering, RlcUmRx.rxModBase, sub32, configureRx, withTwoSdus, Timer.set, Timer.run]
  unfold handleDataPdu
  show ((readDataPduHeader .size10Bits [0x04, 0x01, 0x00, 0x10, 7, 8]).bind _) = _
  rw [hread]
  show some (receivePdu _ twoSduPdu.header twoSduPdu.buf) = _
  have haccepts : UmAccepts
      { configureRx .size10Bits 5 with vrUrInRxSdu := last, reorderingTimer := timer }
      twoSduPdu.header.sn := by
    simp [UmAccepts, RlcUmRx.rxModBase, sub32, configureRx, twoSduPdu]
  rw [umReceivePdu_of_accepts haccepts, hstore, hre, hstart]

/-- The receiver after a PDU has moved the reordering window over PDU 1. -/
def pushed (last vrUr : Nat) (timer : Timer) : RlcUmRx :=
  { withTwoSdus last 514 timer with
    rxWindow := (Dict.empty.insert 1 twoSduPdu).insert 513
      { header := { snSize := .size10Bits, sn := 513 }, buf := [9] }
    vrUx := 2, vrUr := vrUr }

/-- While `vr_ur` is outside of the window the first loop takes a round. -/
theorem catchUp_of_outside {st : RlcUmRx} (hout : st.insideReorderingWindow st.vrUr = false)
    (rounds : Nat) : catchUp (rounds + 1) st = catchUp rounds (catchUpRound st) := by
  rw [catchUp, if_neg (by rw [hout]; exact Bool.false_ne_true)]

/-- A PDU at the far end of the window pushes PDU 1 out of it, and its SDUs with it. -/
theorem handleDataPdu_push (last : Nat) (timer : Timer) :
    ∃ st, handleDataPdu { withTwoSdus last 2 timer with vrUx := 2 } [0x02, 0x01, 9] = some st ∧
      st.pdcp = (if 1 = (last + 1) % 1024 then [[7]] else []) ++ [[8]] := by
  have hread : readDataPduHeader .size10Bits [0x02, 0x01, 9]
      = some ({ snSize := .size10Bits, sn := 513 }, [9]) := by decide
  have hstore : storeDataPdu { withTwoSdus last 2 timer with vrUx := 2 }
      { snSize := .size10Bits, sn := 513 } [9] = pushed last 0 timer := by
    simp [storeDataPdu, RlcUmRx.insideReorderingWindow, RlcUmRx.rxModBase, sub32, configureRx,
      withTwoSdus, pushed]
  have hout : ∀ k < 2,
      (pushed last k timer).insideReorderingWindow (pushed last k timer).vrUr = false := by
    intro k hk
    have hk : k = 0 ∨ k = 1 := by omega
    rcases hk with rfl | rfl <;>
      simp [RlcUmRx.insideReorderingWindow, RlcUmRx.rxModBase, sub32, configureRx, withTwoSdus,
        pushed]
  have hround₀ : catchUpRound (pushed last 0 timer) = pushed last 1 timer := by
    have hw : (pushed last 0 timer).rxWindow (pushed last 0 timer).vrUr = none := rfl
    rw [catchUpRound, hw]
    rfl
  obtain ⟨done, hdone, hround₁⟩ : ∃ done, done = { pushed 1 2 timer with
        rxWindow := (pushed last 1 timer).rxWindow.erase 1
        pdcp := (if 1 = (last + 1) % 1024 then [[7]] else []) ++ [[8]] } ∧
      catchUpRound (pushed last 1 timer) = done := by
    refine ⟨_, rfl, ?_⟩
    have hw : (pushed last 1 timer).rxWindow (pushed last 1 timer).vrUr = some twoSduPdu := rfl
    rw [catchUpRound, hw]
    show (reassemblePdu (pushed last 1 timer) twoSduPdu).advance = _
    simp [reassemblePdu, reassembleLis, reassembleLast, twoSduPdu, pushed, withTwoSdus, configureRx,
      RlcUmRx.finishSdu, RlcUmRx.advance, SrsUE.Rlc.Um.endAligned, SrsUE.Rlc.Um.startAligned]
  have hin : done.insideReorderingWindow done.vrUr = true := by
    rw [hdone]
    simp [RlcUmRx.insideReorderingWindow, RlcUmRx.rxModBase, sub32, configureRx, withTwoSdus,
        pushed]
  have hmiss : done.rxWindow done.vrUr = none := by
    rw [hdone]
    rfl
  have hcatch : reassembleRxSdus (pushed last 0 timer) = done := by
    have hrest := umReassembleRxSdus_of_inside hin hmiss
    have hcatch : catchUp 1024 (pushed last 0 timer) = done := by
      rw [catchUp_of_outside (hout 0 (by omega)) 1023, hround₀,
        catchUp_of_outside (hout 1 (by omega)) 1022, hround₁, catchUp, if_pos hin]
    rw [reassembleRxSdus]
    show updateVrUr 1024 (catchUp 1024 (pushed last 0 timer)) = done
    rw [hcatch, updateVrUr, hmiss]
  -- The end of `handle_data_pdu` delivers nothing.
  refine ⟨updateReordering done, ?_, ?_⟩
  · unfold handleDataPdu
    show ((readDataPduHeader .size10Bits [0x02, 0x01, 9]).bind _) = _
    rw [hread]
    show some (receivePdu _ _ _) = _
    have haccepts : UmAccepts { withTwoSdus last 2 timer with vrUx := 2 }
        ({ snSize := .size10Bits, sn := 513 } : UmdPduHeader).sn := by
      simp [UmAccepts, RlcUmRx.rxModBase, sub32, configureRx, withTwoSdus, Dict.insert_apply]
    rw [umReceivePdu_of_accepts haccepts, hstore, hcatch]
  · obtain ⟨timer, ux, hframe⟩ := umUpdateReordering_frame done
    rw [hframe, hdone]

/-- What a PDU shows is what the receive half hands over. -/
theorem umObserve_writePdu {e : UmEntity} {payload : Bytes} {rx : RlcUmRx}
    (h : handleDataPdu { e.rx with pdcp := [] } payload = some rx) :
    umObserve e (.writePdu payload) = some ({ e with rx := rx }, { delivered := rx.pdcp }) := by
  have hrx : umRxResult { e.rx with pdcp := [] } (.writePdu payload) = some rx := h
  rw [umObserve, hrx]
  rfl

/-- The first SDU of PDU 1 is delivered only when `vr_ur_in_rx_sdu` was next to it. -/
theorem trace_twoSdus (e : UmEntity) (last : Nat) (timer : Timer) (hoff : timer.running = false)
    (hrx : { e.rx with pdcp := [] }
      = { configureRx .size10Bits 5 with vrUrInRxSdu := last, reorderingTimer := timer }) :
    trace umObserve e [.writePdu [0x04, 0x01, 0x00, 0x10, 7, 8], .writePdu [0x02, 0x01, 9]]
      = [some {},
          some { delivered := (if 1 = (last + 1) % 1024 then [[7]] else []) ++ [[8]] }] := by
  have hfirst := handleDataPdu_twoSdus last timer hoff
  rw [← hrx] at hfirst
  obtain ⟨rx, hpush, hpdcp⟩ :=
    handleDataPdu_push last { timeout := 5, counter := 0, running := true }
  rw [trace_cons (umObserve_writePdu hfirst), trace_cons (umObserve_writePdu hpush), hpdcp]
  rfl

section
variable {e : UmEntity}

/-- A `tx_sdu` that `reset` has emptied but kept makes the next `read_pdu` send an empty PDU. -/
theorem UmForgets.txSdu (h : UmForgets e) : e.tx.txSdu = none := by
  by_contra hne
  obtain ⟨sdu, hsdu⟩ := Option.ne_none_iff_exists'.mp hne
  have htrace := (h (.umBi .size5Bits 5 .size5Bits) [.readPdu 10] (fun _ _ => trivial) .size5Bits 5
    .size5Bits).1
  have htx : (e.reset.configure (.umBi .size5Bits 5 .size5Bits)).tx
      = { configure .size5Bits with txSdu := some [] } := by
    show e.tx.reset.reconfigure .size5Bits = _
    unfold RlcUm.reset
    rw [hsdu]
    rfl
  have hread : ∀ e : UmEntity, umObserve e (.readPdu 10)
      = some ({ tx := (readPdu e.tx 10).1, rx := { e.rx with pdcp := [] } },
          { payload := (readPdu e.tx 10).2 }) := fun _ => rfl
  have hhead := congrArg List.head? htrace
  rw [head?_trace, head?_trace, hread, hread, htx] at hhead
  have hpayload : (readPdu { configure .size5Bits with txSdu := some [] } 10).2
      = (readPdu (configure .size5Bits) 10).2 :=
    congrArg UmOutput.payload (Option.some.inj (Option.some.inj hhead))
  exact absurd hpayload (by decide)

/-- The first PDU with length indicators is compared with `vr_ur_in_rx_sdu`. -/
theorem UmForgets.last (h : UmForgets e) : e.rx.vrUrInRxSdu % 1024 = 0 := by
  have htrace := (h (.umBi .size10Bits 5 .size10Bits)
    [.writePdu [0x04, 0x01, 0x00, 0x10, 7, 8], .writePdu [0x02, 0x01, 9]] (fun _ _ => trivial)
    .size10Bits 5 .size10Bits).1
  rw [trace_twoSdus (e.reset.configure _) e.rx.vrUrInRxSdu e.rx.reorderingTimer.stop rfl rfl,
    trace_twoSdus ((newUm _ _ _).configure _) 0 {} rfl rfl] at htrace
  by_contra hne
  rw [if_neg (by omega), if_pos (by decide)] at htrace
  exact absurd htrace (by decide)

/-- An entity that is reset and configured again acts as a new one exactly when no SDU was partly
sent and `vr_ur_in_rx_sdu` holds a multiple of 1024. -/
theorem umForgets_iff (e : UmEntity) : UmForgets e ↔ UmResettable e :=
  ⟨fun h => { txSdu := h.txSdu, last := h.last }, UmResettable.forgets⟩

end

/-! ### Both kinds of entities -/

/-- What a reset of either kind of entity forgets: an acknowledged mode entity in any state that it
can reach, and an unacknowledged mode entity in any state. -/
theorem reset_forgets_iff (L : SrslteBit) (st : RlcAm) (hs : AmReachable L st) (t : Nat)
    (e : UmEntity) :
    (AmForgets L t st ↔ AmResettable t st) ∧ (UmForgets e ↔ UmResettable e) :=
  ⟨amForgets_iff hs t, umForgets_iff e⟩

/-- Two bytes of an SDU of four are sent. A reset does not forget the other two, in either kind of
entity. -/
theorem reset_forgets_iff_partlySent :
    ∃ st e, AmReachable msbFirst st ∧ st.txSdu = some [3, 4] ∧ e.tx.txSdu = some [3, 4] ∧
      ¬AmForgets msbFirst 0 st ∧ ¬UmForgets e := by
  obtain ⟨st, hs, hst⟩ : ∃ st, runTo (amLifeStep msbFirst) {} [.configure {},
    .call (.writeSdu [1, 2, 3, 4]),
      .call (.readPdu 0 4)] = some st ∧ st.txSdu = some [3, 4] := ⟨_, rfl, rfl⟩
  obtain ⟨e, he⟩ : ∃ e : UmEntity, e.tx.txSdu = some [3, 4] :=
    ⟨{ newUm .size5Bits 5 .size5Bits with
        tx := (readPdu { configure .size5Bits with txSduQueue := [[1, 2, 3, 4]] } 3).1 }, rfl⟩
  obtain ⟨ham, hum⟩ := reset_forgets_iff msbFirst st ⟨_, hs⟩ 0 e
  refine ⟨st, e, ⟨_, hs⟩, hst, he, fun h => ?_, fun h => ?_⟩
  · have hnone := (ham.mp h).txSdu
    rw [hst] at hnone
    cases hnone
  · have hnone := (hum.mp h).txSdu
    rw [he] at hnone
    cases hnone

/-- Both kinds of entities send two bytes of an SDU of four, are reset, and send an empty PDU
where a new entity sends nothing. -/
theorem reset_keeps_txSdu :
    (∃ st, runTo (amLifeStep msbFirst) {} [.configure {}, .call (.writeSdu [1, 2, 3, 4]),
          .call (.readPdu 0 4)] = some st ∧
      trace (amObserve msbFirst) (SrsUE.Rlc.configure (SrsUE.Rlc.reset st) {}) [.readPdu 0 10]
        = [some { payload := [0x90, 0x00] }] ∧
      trace (amObserve msbFirst) (SrsUE.Rlc.configure {} {}) [.readPdu 0 10] = [some {}]) ∧
    ∃ e, runTo (fun e c => (umObserve e c).map (·.1)) (newUm .size5Bits 5 .size5Bits)
          [.writeSdu [1, 2, 3, 4], .readPdu 3] = some e ∧
      trace umObserve (e.reset.configure (.umBi .size5Bits 5 .size5Bits)) [.readPdu 10]
        = [some { payload := [0x80] }] ∧
      trace umObserve ((newUm .size5Bits 5 .size5Bits).configure (.umBi .size5Bits 5 .size5Bits))
        [.readPdu 10] = [some {}] :=
  ⟨⟨_, rfl, by decide, by decide⟩, _, rfl, by decide, by decide⟩

end SrsUE.Proofs.Rlc
