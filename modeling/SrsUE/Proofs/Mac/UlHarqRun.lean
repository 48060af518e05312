import SrsUE.Mac.UlHarq
import SrsUE.Lib.Run

/-!
# `SrsUE.Proofs.Mac.UlHarqRun`: runs of an uplink HARQ process

`UlRun` is a process with what an observer of its calls and actions knows: the transport block that
it holds, how often the last block was transmitted, and the NDI of the last grant. `UlRun.step` is
one entry.

* `handle_eq`: an entry first takes the feedback. Then `order` says from the grant and the process
  what is to be done, and `perform` does it.
* `Transmits` and `FeedbackSpec` say what a transmission and what feedback leave of the process.
* `UlRun.Inv` is the invariant, and `UlRun.Inv.after` says that every entry keeps it.
-/

set_option autoImplicit false

namespace SrsUE.Proofs.Mac

open SrsUE.Mac SrsUE.Lib
open SrsUE.Rlc (Bytes)

variable {Γ : Type} [Inhabited Γ]

/-! ### What an entry orders -/

/-- What is to be done after the feedback. -/
inductive UlOrder (Γ : Type)
  /-- Nothing is sent, and the process is as given. -/
  | idle (q : UlHarqProcess Γ)
  /-- The mux is asked, and has no PDU. -/
  | vain (q : UlHarqProcess Γ) (call : UlCall)
  /-- The mux is asked, and has a PDU. -/
  | fresh (q : UlHarqProcess Γ) (ttiTx : Nat) (g : MacGrant Γ) (pdu : Bytes) (tempRnti : Nat)
  | adaptive (q : UlHarqProcess Γ) (ttiTx : Nat) (g : MacGrant Γ) (tempRnti : Nat)
  | nonAdaptive (q : UlHarqProcess Γ) (ttiTx tempRnti : Nat)

/-- The request of a grant to the mux. -/
def muxRequest (q : UlHarqProcess Γ) (ttiTx : Nat) (g : MacGrant Γ) : UlCall :=
  if g.isFromRar then .msg3Get g.nBytes else .pduGet g.nBytes ttiTx q.pid

section
variable (codes : RntiCodes) (limits : UlLimits)

/-- The order of a grant. -/
def grantOrder (q : UlHarqProcess Γ) (g : MacGrant Γ) (input : UlInput) : UlOrder Γ :=
  let ttiTx := (g.tti + 4) % 10240
  if q.isNewTx codes g then
    match input.muxPdu with
    | none => .vain q (muxRequest q ttiTx g)
    | some pdu => .fresh q ttiTx g pdu input.tempRnti
  else .adaptive q ttiTx g input.tempRnti

/-- The order of a grant of any type. -/
def anyGrantOrder (q : UlHarqProcess Γ) (g : MacGrant Γ) (input : UlInput) : UlOrder Γ :=
  if g.rntiType = 0 || g.rntiType = codes.temp || g.rntiType = codes.rar then
    grantOrder codes q g input
  else if g.rntiType = codes.sps && g.ndi then
    grantOrder codes q { g with ndi := input.ndiOfTti } input
  else .idle q

/-- The process when the entry has taken the feedback, or has reset it. -/
def afterFeedback (p : UlHarqProcess Γ) : UlEvent Γ → UlHarqProcess Γ
  | .newGrantUl _ _ => p
  | .newGrantUlAck g ack _ => p.setAck g.tti ack
  | .harqRecv tti ack _ => p.setAck tti ack
  | .reset => p.reset
  | .macReset => p.resetNdi

/-- The order of an entry to a process that has taken its feedback. -/
def order (q : UlHarqProcess Γ) : UlEvent Γ → UlOrder Γ
  | .newGrantUl g input => anyGrantOrder codes q g input
  | .newGrantUlAck g _ input => anyGrantOrder codes q g input
  | .harqRecv tti _ input =>
    if q.isGrantConfigured then .nonAdaptive q ((tti + 4) % 10240) input.tempRnti else .idle q
  | .reset => .idle q
  | .macReset => .idle q

/-- What an order leads to. -/
def perform : UlOrder Γ → UlOutcome Γ
  | .idle q => { proc := q, action := { phyGrant := default } }
  | .vain q call =>
    { proc := { q with pduPtr := none }, action := { phyGrant := default }, calls := [call] }
  | .fresh q ttiTx g pdu tempRnti =>
    let r := { q with pduPtr := some pdu }.generateNewTx limits ttiTx g.isFromRar g tempRnti
    { proc := r.1, action := r.2, calls := [muxRequest q ttiTx g] }
  | .adaptive q ttiTx g tempRnti => q.generateRetx limits ttiTx (some g) tempRnti
  | .nonAdaptive q ttiTx tempRnti => q.generateRetx limits ttiTx none tempRnti

/-- The order of a grant is what `run_tti` of the process does. -/
theorem perform_grantOrder (q : UlHarqProcess Γ) (g : MacGrant Γ) (input : UlInput) :
    perform limits (grantOrder codes q g input) = q.entityRunTti codes limits g.tti (some g)
      input := by
  rw [UlHarqProcess.entityRunTti, UlHarqProcess.runTti, grantOrder]
  split
  · rw [UlHarqProcess.newTx]
    cases input.muxPdu with
    | none => rfl
    | some pdu => rfl
  · rfl

/-- The order of a grant of any type is what `new_grant_ul` does. -/
theorem perform_anyGrantOrder (q : UlHarqProcess Γ) (g : MacGrant Γ) (input : UlInput) :
    perform limits (anyGrantOrder codes q g input) = q.newGrantUl codes limits g input := by
  rw [UlHarqProcess.newGrantUl, anyGrantOrder]
  split
  · exact perform_grantOrder codes limits q g input
  · split
    · exact perform_grantOrder codes limits q _ input
    · rfl

/-- An entry does what it orders. -/
theorem handle_eq (p : UlHarqProcess Γ) (e : UlEvent Γ) :
    p.handle codes limits e = perform limits (order codes (afterFeedback p e) e) := by
  cases e with
  | newGrantUl g input => exact (perform_anyGrantOrder codes limits p g input).symm
  | newGrantUlAck g ack input => exact (perform_anyGrantOrder codes limits _ g input).symm
  | harqRecv tti ack input =>
    rw [UlHarqProcess.handle, UlHarqProcess.harqRecv, UlHarqProcess.entityRunTti,
      UlHarqProcess.runTti, order, afterFeedback]
    split
    · rfl
    · rfl
  | reset => rfl
  | macReset => rfl

end

/-! ### Transmissions -/

/-- The process and the action after `generate_tx` for a process with the block and its number. -/
structure Transmits (limits : UlLimits) (p p' : UlHarqProcess Γ) (action : TbActionUl Γ) :
    Prop where
  txEnabled : action.txEnabled = true
  payload : action.payloadPtr = p.pduPtr
  expectAck : action.expectAck = decide (p.currentTxNb < p.maxRetx limits)
  configured : p'.isGrantConfigured =
    (p.isGrantConfigured && decide (p.currentTxNb < p.maxRetx limits))
  txNb : p'.currentTxNb = if p.currentTxNb < p.maxRetx limits then p.currentTxNb else 0
  pduPtr : p'.pduPtr = p.pduPtr
  feedback : p'.harqFeedback = p.harqFeedback
  isMsg3 : p'.isMsg3 = p.isMsg3

/-- `generate_tx` transmits the block of the process. -/
theorem transmits_generateTx (limits : UlLimits) (p : UlHarqProcess Γ) (ttiTx tempRnti : Nat) :
    Transmits limits p (p.generateTx limits ttiTx tempRnti).1
      (p.generateTx limits ttiTx tempRnti).2 := by
  have hmax : ∀ irv tti, UlHarqProcess.maxRetx { p with currentIrv := irv, ttiLastTx := tti }
      limits =
      p.maxRetx limits := fun _ _ => rfl
  rw [UlHarqProcess.generateTx, hmax]
  split
  · rename_i hlast
    have hnot : ¬p.currentTxNb < p.maxRetx limits := Nat.not_lt.mpr hlast
    constructor <;> simp [UlHarqProcess.reset, hnot]
  · rename_i hlast
    have hlt : p.currentTxNb < p.maxRetx limits := Nat.not_le.mp hlast
    constructor <;> simp [hlt]

/-- The PHY grant and the redundancy version are those of `cur_grant`, as long as this has a
redundancy version. -/
theorem generateTx_grant (limits : UlLimits) (p : UlHarqProcess Γ) (ttiTx tempRnti : Nat) :
    (p.generateTx limits ttiTx tempRnti).2.phyGrant = p.curGrant.phyGrant ∧
      (p.generateTx limits ttiTx tempRnti).2.rv =
        if p.curGrant.rv > 0 then p.curGrant.rv else p.getRv := by
  rw [UlHarqProcess.generateTx]
  split
  · exact ⟨rfl, rfl⟩
  · exact ⟨rfl, rfl⟩

/-- The process that transmits a new block. -/
def withBlock (q : UlHarqProcess Γ) (g : MacGrant Γ) (pdu : Bytes) : UlHarqProcess Γ :=
  { q with
    pduPtr := some pdu
    curGrant := g
    harqFeedback := false
    isGrantConfigured := true
    currentTxNb := 0
    currentIrv := 0
    isMsg3 := g.isFromRar }

/-- The process that retransmits its block for a grant. -/
def withRetx (q : UlHarqProcess Γ) (g : MacGrant Γ) : UlHarqProcess Γ :=
  { q with
    currentTxNb := q.currentTxNb + 1
    currentIrv := UlHarqProcess.irvOfRv (UlHarqProcess.rvIndex g.rv)
    harqFeedback := false }

/-- A new block is transmitted for the first time. -/
theorem transmits_fresh (limits : UlLimits) (q : UlHarqProcess Γ) (ttiTx : Nat) (g : MacGrant Γ)
    (pdu : Bytes) (tempRnti : Nat) :
    Transmits limits (withBlock q g pdu) (perform limits (.fresh q ttiTx g pdu tempRnti)).proc
      (perform limits (.fresh q ttiTx g pdu tempRnti)).action :=
  transmits_generateTx limits (withBlock q g pdu) ttiTx tempRnti

/-- An adaptive retransmission transmits the block with the grant. -/
theorem transmits_adaptive (limits : UlLimits) (q : UlHarqProcess Γ) (ttiTx : Nat) (g : MacGrant Γ)
    (tempRnti : Nat) :
    Transmits limits (withRetx q g) (perform limits (.adaptive q ttiTx g tempRnti)).proc
      (perform limits (.adaptive q ttiTx g tempRnti)).action :=
  transmits_generateTx limits (withRetx q g) ttiTx tempRnti

/-- A retransmission without a grant transmits the block again. -/
theorem transmits_nonAdaptive (limits : UlLimits) {q : UlHarqProcess Γ}
    (hq : q.harqFeedback = false)
    (ttiTx tempRnti : Nat) :
    Transmits limits { q with currentTxNb := q.currentTxNb + 1 }
      (perform limits (.nonAdaptive q ttiTx tempRnti)).proc
      (perform limits (.nonAdaptive q ttiTx tempRnti)).action := by
  have htx := transmits_generateTx limits { q with currentTxNb := q.currentTxNb + 1 } ttiTx tempRnti
  have hperform : perform limits (.nonAdaptive q ttiTx tempRnti) =
      (let r := { q with currentTxNb := q.currentTxNb + 1 }.generateTx limits ttiTx tempRnti
       { proc := r.1
         action := r.2
         calls := (if r.1.isMsg3 then [.contentionTimerReset] else []) ++
          [.puschRetx ttiTx r.1.pid] }) := by
    simp only [perform, UlHarqProcess.generateRetx, hq, Bool.not_false, if_true]
  rw [hperform]
  exact htx

/-! ### Runs -/

/-- The call asks the mux for a PDU. -/
def asksMux : UlCall → Bool
  | .msg3Get _ => true
  | .pduGet .. => true
  | _ => false

/-- The PDU that the mux has for an entry. -/
def muxPdu : UlEvent Γ → Option Bytes
  | .newGrantUl _ input => input.muxPdu
  | .newGrantUlAck _ _ input => input.muxPdu
  | _ => none

/-- The grant of an entry. -/
def grant? : UlEvent Γ → Option (MacGrant Γ)
  | .newGrantUl g _ => some g
  | .newGrantUlAck g _ _ => some g
  | _ => none

/-- The block that the process transmitted last is acknowledged. -/
def acknowledged (p : UlHarqProcess Γ) : UlEvent Γ → Bool
  | .newGrantUlAck g ack _ => ack && p.takesAck g.tti
  | .harqRecv tti ack _ => ack && p.takesAck tti
  | _ => false

/-- The entry flushes the buffers. -/
def flushes : UlEvent Γ → Bool
  | .reset => true
  | .macReset => true
  | _ => false

/-- A process, and what is known of its transport blocks. -/
structure UlRun (Γ : Type) where
  proc : UlHarqProcess Γ
  /-- The block of a new transmission that is neither acknowledged nor flushed. -/
  held : Option Bytes := none
  /-- How often the block of the last new transmission was transmitted. -/
  sent : Option Nat := none
  /-- The NDI of the last grant. -/
  prevNdi : Option Bool := none

namespace UlRun

/-- A new transmission is made. -/
def isFresh (o : UlOutcome Γ) : Bool := o.calls.any asksMux && o.action.txEnabled

/-- The block that is held when the feedback has been taken. -/
def heldAfterAck (r : UlRun Γ) (e : UlEvent Γ) : Option Bytes :=
  if acknowledged r.proc e || flushes e then none else r.held

/-- How often the last block has been transmitted after the entry. -/
def sentAfter (r : UlRun Γ) (o : UlOutcome Γ) : Option Nat :=
  if isFresh o then some 1 else if o.action.txEnabled then r.sent.map (· + 1) else r.sent

/-- One entry. A transmission that expects no acknowledgement is the last one of its block. -/
def after (r : UlRun Γ) (e : UlEvent Γ) (o : UlOutcome Γ) : UlRun Γ where
  proc := o.proc
  held :=
    if o.action.txEnabled && !o.action.expectAck then none
    else if isFresh o then muxPdu e else r.heldAfterAck e
  sent := r.sentAfter o
  prevNdi := ((grant? e).map MacGrant.ndi).or r.prevNdi

/-- One entry of a run. -/
def step (codes : RntiCodes) (limits : UlLimits) (r : UlRun Γ) (e : UlEvent Γ) : Option (UlRun Γ) :=
  some (r.after e (r.proc.handle codes limits e))

/-! ### What an entry leaves -/

section
variable {limits : UlLimits} {r : UlRun Γ} {e : UlEvent Γ} {q : UlHarqProcess Γ}

/-- An entry that does nothing leaves the block and its count. -/
theorem after_idle : r.after e (perform limits (.idle q)) =
    ⟨q, r.heldAfterAck e, r.sent, ((grant? e).map MacGrant.ndi).or r.prevNdi⟩ := rfl

/-- Neither does a request that the mux has no PDU for. -/
theorem after_vain (call : UlCall) : r.after e (perform limits (.vain q call)) =
    ⟨{ q with pduPtr := none }, r.heldAfterAck e, r.sent,
      ((grant? e).map MacGrant.ndi).or r.prevNdi⟩ := by
  simp [after, perform, isFresh, sentAfter]

omit [Inhabited Γ] in
/-- The request asks the mux. -/
theorem asksMux_muxRequest (ttiTx : Nat) (g : MacGrant Γ) :
    asksMux (muxRequest q ttiTx g) = true := by
  rw [muxRequest]
  split
  · rfl
  · rfl

/-- A new block is a new transmission. -/
theorem isFresh_fresh (ttiTx : Nat) (g : MacGrant Γ) (pdu : Bytes) (tempRnti : Nat) :
    isFresh (perform limits (.fresh q ttiTx g pdu tempRnti)) = true := by
  have htx := (transmits_fresh limits q ttiTx g pdu tempRnti).txEnabled
  have hcalls : (perform limits (.fresh q ttiTx g pdu tempRnti)).calls = [muxRequest q ttiTx g] :=
    rfl
  simp [isFresh, hcalls, htx, asksMux_muxRequest]

/-- A retransmission asks the mux for nothing. -/
theorem not_asksMux_generateRetx (ttiTx : Nat) (grant : Option (MacGrant Γ)) (tempRnti : Nat) :
    (q.generateRetx limits ttiTx grant tempRnti).calls.any asksMux = false := by
  have hcalls : ∀ (msg3 : Bool) (pid : Nat),
      ((if msg3 then [UlCall.contentionTimerReset] else []) ++ [UlCall.puschRetx ttiTx pid]).any
        asksMux =
        false := by
    intro msg3 pid
    cases msg3 with
    | false => rfl
    | true => rfl
  cases grant with
  | none => exact hcalls _ _
  | some g => exact hcalls _ _

omit [Inhabited Γ] in
/-- An outcome with a transmission that is not a new one. -/
theorem after_retx {o : UlOutcome Γ} {p : UlHarqProcess Γ}
    (htx : Transmits limits p o.proc o.action)
    (hcalls : o.calls.any asksMux = false) :
    r.after e o = ⟨o.proc, if p.currentTxNb < p.maxRetx limits then r.heldAfterAck e else none,
      r.sent.map (· + 1), ((grant? e).map MacGrant.ndi).or r.prevNdi⟩ := by
  have hfresh : isFresh o = false := by rw [isFresh, hcalls, Bool.false_and]
  simp only [after, sentAfter, hfresh, htx.txEnabled, htx.expectAck]
  by_cases hlt : p.currentTxNb < p.maxRetx limits
  · simp [hlt]
  · simp [hlt]

/-- After a new block it is held if it can be retransmitted, and has been transmitted once. -/
theorem after_fresh (ttiTx : Nat) (g : MacGrant Γ) {pdu : Bytes} (tempRnti : Nat)
    (hpdu : muxPdu e = some pdu) :
    r.after e (perform limits (.fresh q ttiTx g pdu tempRnti)) =
      ⟨(perform limits (.fresh q ttiTx g pdu tempRnti)).proc,
        if 0 < (withBlock q g pdu).maxRetx limits then some pdu else none, some 1,
        ((grant? e).map MacGrant.ndi).or r.prevNdi⟩ := by
  have htx := transmits_fresh limits q ttiTx g pdu tempRnti
  have hnb : (withBlock q g pdu).currentTxNb = 0 := rfl
  simp only [after, sentAfter, isFresh_fresh, htx.txEnabled, htx.expectAck, hnb, hpdu]
  by_cases hlt : 0 < (withBlock q g pdu).maxRetx limits
  · simp [hlt]
  · simp [hlt]

end

end UlRun

/-! ### Orders -/

/-- The orders that an entry can lead to. A grant keeps all but its NDI on the way. -/
inductive OrderCase (codes : RntiCodes) (q : UlHarqProcess Γ) (e : UlEvent Γ) : UlOrder Γ → Prop
  | idle (hgrant : ∀ g, grant? e = some g → g.rntiType ≠ 0 ∧ g.rntiType ≠ codes.temp ∧
      g.rntiType ≠ codes.rar) : OrderCase codes q e (.idle q)
  | vain (g : MacGrant Γ) (ttiTx : Nat) (hpdu : muxPdu e = none) :
      OrderCase codes q e (.vain q (muxRequest q ttiTx g))
  | fresh (g : MacGrant Γ) (ttiTx : Nat) (pdu : Bytes) (tempRnti : Nat)
      (hpdu : muxPdu e = some pdu) : OrderCase codes q e (.fresh q ttiTx g pdu tempRnti)
  | adaptive (g₀ : MacGrant Γ) (ndi : Bool) (ttiTx tempRnti : Nat) (hgrant : grant? e = some g₀)
      (hnew : q.isNewTx codes { g₀ with ndi := ndi } = false) :
      OrderCase codes q e (.adaptive q ttiTx { g₀ with ndi := ndi } tempRnti)
  | nonAdaptive (ttiTx tempRnti : Nat) (hconfigured : q.isGrantConfigured = true)
      (hgrant : grant? e = none) : OrderCase codes q e (.nonAdaptive q ttiTx tempRnti)

omit [Inhabited Γ] in
/-- The order of a grant is one of those listed. -/
theorem orderCase_grantOrder {codes : RntiCodes} {q : UlHarqProcess Γ} {e : UlEvent Γ}
    {g : MacGrant Γ} {input : UlInput} (hgrant : grant? e = some g) (hpdu : muxPdu e = input.muxPdu)
    (ndi : Bool) :
    OrderCase codes q e (grantOrder codes q { g with ndi := ndi } input) := by
  rw [grantOrder]
  split
  · split
    · rename_i hnone
      exact .vain _ _ (hpdu.trans hnone)
    · rename_i pdu hsome
      exact .fresh _ _ pdu _ (hpdu.trans hsome)
  · rename_i hnew
    exact .adaptive g ndi _ _ hgrant (Bool.eq_false_of_not_eq_true hnew)

omit [Inhabited Γ] in
/-- So is that of a grant of any type. -/
theorem orderCase_anyGrantOrder {codes : RntiCodes} {q : UlHarqProcess Γ} {e : UlEvent Γ}
    {g : MacGrant Γ} {input : UlInput} (hgrant : grant? e = some g)
    (hpdu : muxPdu e = input.muxPdu) : OrderCase codes q e (anyGrantOrder codes q g input) := by
  rw [anyGrantOrder]
  split
  · exact orderCase_grantOrder hgrant hpdu g.ndi
  · rename_i htype
    split
    · exact orderCase_grantOrder hgrant hpdu _
    · refine .idle fun g' hg' => ?_
      obtain rfl := Option.some.inj (hgrant.symm.trans hg')
      simpa [not_or, and_assoc] using htype

omit [Inhabited Γ] in
/-- So is that of every entry. -/
theorem orderCase_order (codes : RntiCodes) (q : UlHarqProcess Γ) (e : UlEvent Γ) :
    OrderCase codes q e (order codes q e) := by
  cases e with
  | newGrantUl g input => exact orderCase_anyGrantOrder rfl rfl
  | newGrantUlAck g ack input => exact orderCase_anyGrantOrder rfl rfl
  | harqRecv tti ack input =>
    rw [order]
    split
    · rename_i hconfigured
      exact .nonAdaptive _ _ hconfigured rfl
    · exact .idle fun g hg => by cases hg
  | reset => exact .idle fun g hg => by cases hg
  | macReset => exact .idle fun g hg => by cases hg

/-! ### Feedback -/

/-- What the feedback leaves. -/
structure FeedbackSpec (p q : UlHarqProcess Γ) (acked flushed : Bool) : Prop where
  configured : q.isGrantConfigured = true → p.isGrantConfigured = true ∧ acked = false
  keeps : acked = false → flushed = false → q.isGrantConfigured = p.isGrantConfigured
  txNb : q.currentTxNb ≤ p.currentTxNb
  pduPtr : q.pduPtr = p.pduPtr
  isMsg3 : q.isMsg3 = p.isMsg3
  feedback : q.isGrantConfigured = true → p.harqFeedback = false → q.harqFeedback = false

/-- What an ACK or a NACK leaves: the block stays, unless an expected ACK comes. -/
theorem feedbackSpec_setAck (p : UlHarqProcess Γ) (tti : Nat) (ack : Bool) :
    FeedbackSpec p (p.setAck tti ack) (ack && p.takesAck tti) false := by
  rw [UlHarqProcess.setAck]
  split
  · rename_i htakes
    rw [htakes, Bool.and_true]
    cases ack with
    | false => exact ⟨fun h => ⟨h, rfl⟩, fun _ _ => rfl, Nat.le_refl _, rfl, rfl, fun _ _ => rfl⟩
    | true =>
      exact ⟨(fun h => by cases h), (fun h => by cases h), Nat.zero_le _, rfl, rfl,
        (fun h => by cases h)⟩
  · rename_i htakes
    rw [Bool.eq_false_of_not_eq_true htakes, Bool.and_false]
    exact ⟨fun h => ⟨h, rfl⟩, fun _ _ => rfl, Nat.le_refl _, rfl, rfl, fun _ h => h⟩

/-- What the feedback part of any entry leaves. -/
theorem feedbackSpec (p : UlHarqProcess Γ) (e : UlEvent Γ) :
    FeedbackSpec p (afterFeedback p e) (acknowledged p e) (flushes e) := by
  have hsame : FeedbackSpec p p false false :=
    ⟨fun h => ⟨h, rfl⟩, fun _ _ => rfl, Nat.le_refl _, rfl, rfl, fun _ h => h⟩
  cases e with
  | newGrantUl g input => exact hsame
  | newGrantUlAck g ack input => exact feedbackSpec_setAck p g.tti ack
  | harqRecv tti ack input => exact feedbackSpec_setAck p tti ack
  | reset =>
    exact ⟨(fun h => by cases h), (fun _ h => by cases h), Nat.zero_le _, rfl, rfl,
      (fun h => by cases h)⟩
  | macReset =>
    exact ⟨fun h => ⟨h, rfl⟩, (fun _ h => by cases h), Nat.le_refl _, rfl, rfl, fun _ h => h⟩

/-! ### The invariant -/

/-- What holds in every run. The number of a transmission never gets ahead of how often the block
was transmitted. -/
structure UlRun.Inv (r : UlRun Γ) : Prop where
  configured_of_held : r.held.isSome = true → r.proc.isGrantConfigured = true
  feedback : r.proc.isGrantConfigured = true → r.proc.harqFeedback = false
  txNb : ∀ k, r.sent = some k → r.proc.currentTxNb < k

namespace UlRun

/-- The run before the first grant. -/
def start (pid : Nat) (harqFeedback isMsg3 : Bool) (buffer : Bytes) : UlRun Γ :=
  { proc := UlHarqProcess.initial pid harqFeedback isMsg3 buffer }

/-- The invariant holds before the first grant. -/
theorem inv_start (pid : Nat) (harqFeedback isMsg3 : Bool) (buffer : Bytes) :
    (start pid harqFeedback isMsg3 buffer : UlRun Γ).Inv :=
  ⟨(fun h => by cases h), (fun h => by cases h), (fun _ h => by cases h)⟩

variable {codes : RntiCodes} {limits : UlLimits} {r : UlRun Γ} {e : UlEvent Γ}

/-- A block that is still held after the feedback was held before. -/
theorem Inv.configured_of_heldAfterAck (h : r.Inv) (hheld : (r.heldAfterAck e).isSome = true) :
    (afterFeedback r.proc e).isGrantConfigured = true := by
  rw [heldAfterAck] at hheld
  split at hheld
  · cases hheld
  · rename_i hkeep
    rw [Bool.or_eq_true, not_or, Bool.not_eq_true, Bool.not_eq_true] at hkeep
    rw [(feedbackSpec r.proc e).keeps hkeep.1 hkeep.2]
    exact h.configured_of_held hheld

/-- With a grant configured, the feedback of the last transmission is no ACK. -/
theorem Inv.feedback_after (h : r.Inv)
    (hconf : (afterFeedback r.proc e).isGrantConfigured = true) :
    (afterFeedback r.proc e).harqFeedback = false := by
  have hspec := feedbackSpec r.proc e
  exact hspec.feedback hconf (h.feedback (hspec.configured hconf).1)

/-- A retransmission keeps the invariant. -/
theorem Inv.retx (h : r.Inv) {p : UlHarqProcess Γ} {o : UlOutcome Γ}
    (htx : Transmits limits p o.proc o.action) (hcalls : o.calls.any asksMux = false)
    (hfeedback : p.harqFeedback = false)
    (hconf : p.isGrantConfigured = (afterFeedback r.proc e).isGrantConfigured)
    (hnb : p.currentTxNb = (afterFeedback r.proc e).currentTxNb + 1) : (r.after e o).Inv := by
  rw [after_retx htx hcalls]
  refine ⟨?_, fun _ => htx.feedback.trans hfeedback, ?_⟩
  · intro hheld
    dsimp only at hheld ⊢
    split at hheld
    · rename_i hlt
      rw [htx.configured, hconf, h.configured_of_heldAfterAck hheld, decide_eq_true hlt]
      rfl
    · cases hheld
  · intro k hk
    obtain ⟨k₀, hk₀, rfl⟩ := Option.map_eq_some_iff.mp hk
    have hlt := h.txNb k₀ hk₀
    have hle := (feedbackSpec r.proc e).txNb
    have htxNb := htx.txNb
    dsimp only
    split at htxNb <;> omega

/-- Every entry keeps the invariant. -/
theorem Inv.after (h : r.Inv) : (r.after e (r.proc.handle codes limits e)).Inv := by
  have hspec := feedbackSpec r.proc e
  rw [handle_eq]
  generalize hord : order codes (afterFeedback r.proc e) e = ord
  have hcase := orderCase_order codes (afterFeedback r.proc e) e
  rw [hord] at hcase
  -- One case for each order that the grant and the feedback give.
  cases hcase with
  | idle hgrant =>
    rw [after_idle]
    exact ⟨h.configured_of_heldAfterAck, h.feedback_after,
      fun k hk => Nat.lt_of_le_of_lt hspec.txNb (h.txNb k hk)⟩
  | vain g ttiTx hpdu =>
    rw [after_vain]
    exact ⟨h.configured_of_heldAfterAck, h.feedback_after,
      fun k hk => Nat.lt_of_le_of_lt hspec.txNb (h.txNb k hk)⟩
  | fresh g ttiTx pdu tempRnti hpdu =>
    have htx := transmits_fresh limits (afterFeedback r.proc e) ttiTx g pdu tempRnti
    rw [after_fresh ttiTx g tempRnti hpdu]
    refine ⟨?_, fun _ => htx.feedback, ?_⟩
    · intro hheld
      dsimp only at hheld ⊢
      split at hheld
      · rename_i hlt
        rw [htx.configured]
        exact decide_eq_true hlt
      · cases hheld
    · intro k hk
      obtain rfl := Option.some.inj hk
      have htxNb := htx.txNb
      have hnb : (withBlock (afterFeedback r.proc e) g pdu).currentTxNb = 0 := rfl
      rw [hnb, ite_self] at htxNb
      dsimp only
      omega
  | adaptive g ndi ttiTx tempRnti hgrant hnew =>
    exact h.retx (transmits_adaptive limits _ ttiTx _ tempRnti)
      (not_asksMux_generateRetx ttiTx _ tempRnti) rfl rfl rfl
  | nonAdaptive ttiTx tempRnti hconf hgrant =>
    have hfeedback := h.feedback_after hconf
    exact h.retx (transmits_nonAdaptive limits hfeedback ttiTx tempRnti)
      (not_asksMux_generateRetx ttiTx _ tempRnti) hfeedback rfl rfl

end UlRun

end SrsUE.Proofs.Mac
