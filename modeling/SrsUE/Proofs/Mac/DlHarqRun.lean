import SrsUE.Mac.DlHarq
import SrsUE.Proofs.Mac.RaAttempts

/-!
# `SrsUE.Proofs.Mac.DlHarqRun`: what a downlink HARQ process delivers

A maximal run of grants with the same NDI and the same size is one transport block. `DlRun` is a
process with what an observer knows: the last grant, and the number of PDUs pushed for its block.

* `workSpec`: what a grant for the C-RNTI leaves.
* `deliversOnce_run`: a block is delivered once, combined in the soft buffer until then, and
  acknowledged again after it, exactly when its grants are no more than 8 TTIs apart.
  `calc_is_new_transmission` takes a later one for a new block.
-/

set_option autoImplicit false

namespace SrsUE.Proofs.Mac

open SrsUE.Mac SrsUE.Lib

variable {Γ : Type} [Inhabited Γ]

/-! ### One grant -/

def isPush : DlCall → Bool
  | .pushPdu .. => true
  | .pushPduTempCrnti .. => true
  | _ => false

def isSoftbufferReset : DlCall → Bool
  | .softbufferResetTbs _ => true
  | .softbufferReset => true
  | _ => false

/-- A grant with what is read elsewhere for it. -/
structure DlEvent (Γ : Type) where
  grant : MacGrant Γ
  input : DlInput
deriving DecidableEq, Repr

section
variable (ttiInterval : Nat → Nat → Nat) (codes : DlRntiCodes)

/-- The block was decoded before, and the grant does not make the process forget it. -/
def keepsAck (p : DlHarqProcess Γ) (g : MacGrant Γ) : Bool :=
  !p.calcIsNewTransmission ttiInterval g && p.ack

/-- What a grant for the C-RNTI leaves of a process other than the broadcast process. -/
structure WorkSpec (p : DlHarqProcess Γ) (e : DlEvent Γ) (o : DlOutcome Γ) : Prop where
  pid : o.proc.pid = p.pid
  curGrant : o.proc.curGrant =
    { e.grant with lastNdi := p.curGrant.ndi, lastTti := p.curGrant.tti }
  decodeEnabled : o.action.decodeEnabled = (!keepsAck ttiInterval p e.grant &&
    e.input.buffer.isSome)
  softbuffer : o.action.softbuffer = o.action.decodeEnabled
  ack : o.proc.ack =
    (keepsAck ttiInterval p e.grant || (e.input.buffer.isSome && e.input.decodePdsch))
  pushed : o.calls.countP isPush =
    if !keepsAck ttiInterval p e.grant && e.input.buffer.isSome && e.input.decodePdsch then 1 else 0
  resets : o.calls.any isSoftbufferReset = p.calcIsNewTransmission ttiInterval e.grant
  reack : keepsAck ttiInterval p e.grant = true → o.calls = [] ∧
    o.action.uciAck e.input = if e.input.taExpired then none else some true

/-- What a C-RNTI grant leaves of a process other than the broadcast process. -/
theorem workSpec {p : DlHarqProcess Γ} (hpid : p.pid ≠ harqBcchPid) {e : DlEvent Γ}
    (hrnti : e.grant.rntiType = 0) :
    WorkSpec ttiInterval p e (p.workDl ttiInterval codes e.grant e.input) := by
  have hnodup := codes.nodup
  simp only [List.nodup_cons, List.mem_cons, List.not_mem_nil, or_false, not_or] at hnodup
  obtain ⟨⟨-, htemp, hsps⟩, -⟩ := hnodup
  have hgrant : DlHarqProcess.entityGrant codes e.grant e.input = some e.grant := by
    simp [DlHarqProcess.entityGrant, hrnti, hsps, htemp]
  rw [DlHarqProcess.workDl, DlHarqProcess.entityNewGrantDl, hgrant]
  simp only [DlHarqProcess.newGrantDl, DlHarqProcess.startTransmission, hpid, hrnti, decide_false,
    Bool.false_and, Bool.false_eq_true, if_false]
  -- every answer that the entry reads is known in each case, so the entry can be executed
  cases hnew : p.calcIsNewTransmission ttiInterval e.grant <;> cases hack : p.ack <;>
    cases hbuffer : e.input.buffer <;> cases hdecode : e.input.decodePdsch <;>
    cases hta : e.input.taExpired <;> constructor <;>
    simp [keepsAck, hnew, hack, hbuffer, hdecode, hta, isPush, isSoftbufferReset,
      DlHarqProcess.tbDecoded, TbActionDl.uciAck, hpid, htemp, hrnti]

variable {ttiInterval}

omit [Inhabited Γ] in
/-- For a process that is not the broadcast process, a grant is a retransmission exactly when it
repeats NDI and size of the last grant within 8 TTIs. -/
theorem calcIsNewTransmission_eq_false {p : DlHarqProcess Γ} (hpid : p.pid ≠ harqBcchPid)
    {g : MacGrant Γ} : p.calcIsNewTransmission ttiInterval g = false ↔
      g.ndi = p.curGrant.ndi ∧ g.nBytes = p.curGrant.nBytes ∧
        ttiInterval g.tti p.curGrant.tti ≤ 8 := by
  simp only [DlHarqProcess.calcIsNewTransmission, hpid, decide_false, Bool.or_false, Bool.false_and]
  cases hnear : decide (ttiInterval g.tti p.curGrant.tti ≤ 8) <;>
    cases hsize : decide (g.nBytes = p.curGrant.nBytes) <;>
    simp_all

end

/-! ### Runs -/

/-- A process with the last grant, and the number of PDUs pushed for the block of this grant. -/
structure DlRun (Γ : Type) where
  proc : DlHarqProcess Γ
  last : Option (MacGrant Γ)
  pushed : Nat
deriving DecidableEq, Repr

namespace DlRun

def start (pid : Nat) (isNewTransmission : Bool) (nRetx : Nat) : DlRun Γ where
  proc := DlHarqProcess.initial pid isNewTransmission nRetx
  last := none
  pushed := 0

/-- The grant has the NDI and the size of the last one. -/
def continues (r : DlRun Γ) (g : MacGrant Γ) : Bool :=
  r.last.any fun l => g.ndi == l.ndi && g.nBytes == l.nBytes

section
variable (ttiInterval : Nat → Nat → Nat) (codes : DlRntiCodes)

def after (r : DlRun Γ) (e : DlEvent Γ) : DlRun Γ :=
  let o := r.proc.workDl ttiInterval codes e.grant e.input
  { proc := o.proc
    last := some e.grant
    pushed := (if r.continues e.grant then r.pushed else 0) + o.calls.countP isPush }

def step (r : DlRun Γ) (e : DlEvent Γ) : Option (DlRun Γ) := some (r.after ttiInterval codes e)

/-- The block of the grant is delivered once. If the grant repeats NDI and size and the block was
delivered before, the grant is acknowledged and nothing else is done. If it was not, the reception
is decoded with the soft buffer as it is. -/
def DeliversOnce (r : DlRun Γ) (e : DlEvent Γ) : Prop :=
  let o := r.proc.workDl ttiInterval codes e.grant e.input
  (r.after ttiInterval codes e).pushed ≤ 1 ∧
    (r.continues e.grant = true →
      (r.pushed ≠ 0 → o.action.decodeEnabled = false ∧ o.calls = [] ∧
        o.action.uciAck e.input = if e.input.taExpired then none else some true) ∧
      (r.pushed = 0 → o.action.decodeEnabled = true ∧ o.action.softbuffer = true ∧
        o.calls.any isSoftbufferReset = false))

/-- If the grant repeats NDI and size, it is no more than 8 TTIs after the last one, and the demux
has a buffer for a block that was not delivered yet. -/
def InTime (r : DlRun Γ) (e : DlEvent Γ) : Prop :=
  r.continues e.grant = true →
    (∀ l ∈ r.last, ttiInterval e.grant.tti l.tti ≤ 8) ∧
      (r.pushed = 0 → e.input.buffer.isSome = true)

instance (r : DlRun Γ) (e : DlEvent Γ) : Decidable (DeliversOnce ttiInterval codes r e) :=
  inferInstanceAs (Decidable (_ ∧ (_ → _ ∧ _)))

instance (r : DlRun Γ) (e : DlEvent Γ) : Decidable (InTime ttiInterval r e) :=
  inferInstanceAs (Decidable (_ → (∀ l ∈ r.last, _) ∧ _))

end

/-- The process has saved the last grant, and `ack` says if its block was delivered. -/
structure Inv (r : DlRun Γ) : Prop where
  pid : r.proc.pid ≠ harqBcchPid
  last : ∀ l ∈ r.last, r.proc.curGrant.ndi = l.ndi ∧ r.proc.curGrant.nBytes = l.nBytes ∧
    r.proc.curGrant.tti = l.tti
  ack : r.proc.ack = decide (r.pushed ≠ 0)
  pushed : r.pushed ≤ 1
  fresh : r.last = none → r.pushed = 0

/-- The invariant holds before the first grant. -/
theorem inv_start {pid : Nat} (hpid : pid < harqBcchPid) (isNewTransmission : Bool) (nRetx : Nat) :
    (start pid isNewTransmission nRetx : DlRun Γ).Inv where
  pid := Nat.ne_of_lt hpid
  last := by
    rintro l ⟨⟩
  ack := rfl
  pushed := Nat.zero_le 1
  fresh := fun _ => rfl

omit [Inhabited Γ] in
/-- A grant continues the last one when NDI and size are the same. -/
theorem continues_iff {r : DlRun Γ} {g : MacGrant Γ} :
    r.continues g = true ↔ ∃ l, r.last = some l ∧ g.ndi = l.ndi ∧ g.nBytes = l.nBytes := by
  simp [continues, Option.any_eq_true]

section
variable {ttiInterval : Nat → Nat → Nat} {codes : DlRntiCodes} {r : DlRun Γ}

omit [Inhabited Γ] in
/-- The grant of another block makes the process forget the last one. -/
theorem Inv.keepsAck_other (h : r.Inv) {g : MacGrant Γ} (hother : r.continues g = false) :
    keepsAck ttiInterval r.proc g = false := by
  rw [keepsAck, Bool.and_eq_false_iff, Bool.not_eq_false', h.ack]
  cases hlast : r.last with
  | none => exact Or.inr (decide_eq_false (fun hne => hne (h.fresh hlast)))
  | some l =>
    left
    by_contra hold
    rw [Bool.not_eq_true, calcIsNewTransmission_eq_false h.pid] at hold
    obtain ⟨hndi, hsize, -⟩ := h.last l hlast
    have hcont := continues_iff.mpr ⟨l, hlast, hold.1.trans hndi, hold.2.1.trans hsize⟩
    rw [hother] at hcont
    cases hcont

omit [Inhabited Γ] in
/-- A grant of the same block is a retransmission exactly when it comes in time. -/
theorem Inv.isRetransmission_iff (ttiInterval : Nat → Nat → Nat) (h : r.Inv) {g l : MacGrant Γ}
    (hlast : r.last = some l) (hndi : g.ndi = l.ndi) (hsize : g.nBytes = l.nBytes) :
    r.proc.calcIsNewTransmission ttiInterval g = false ↔ ttiInterval g.tti l.tti ≤ 8 := by
  obtain ⟨hndi', hsize', htti⟩ := h.last l hlast
  rw [calcIsNewTransmission_eq_false h.pid, htti]
  exact ⟨fun hall => hall.2.2, fun hle => ⟨hndi.trans hndi'.symm, hsize.trans hsize'.symm, hle⟩⟩

omit [Inhabited Γ] in
/-- A grant of the same block in time makes the process remember that it was delivered. -/
theorem Inv.keepsAck_same (h : r.Inv) {e : DlEvent Γ} (htime : InTime ttiInterval r e)
    (hcont : r.continues e.grant = true) :
    keepsAck ttiInterval r.proc e.grant = decide (r.pushed ≠ 0) := by
  obtain ⟨l, hlast, hndi, hsize⟩ := continues_iff.mp hcont
  have hold := (h.isRetransmission_iff ttiInterval hlast hndi hsize).mpr ((htime hcont).1 l hlast)
  rw [keepsAck, hold, h.ack]
  rfl

/-- After a grant in time, `ack` says if its block was delivered. -/
theorem Inv.pushed_after (h : r.Inv) (codes : DlRntiCodes) {e : DlEvent Γ}
    (hrnti : e.grant.rntiType = 0)
    (htime : InTime ttiInterval r e) :
    (r.after ttiInterval codes e).pushed = if (r.after ttiInterval codes e).proc.ack then 1
    else 0 := by
  have hspec := workSpec ttiInterval codes h.pid hrnti
  have hbefore : (if r.continues e.grant then r.pushed else 0) =
      if keepsAck ttiInterval r.proc e.grant then 1 else 0 := by
    cases hcont : r.continues e.grant with
    | false =>
      rw [h.keepsAck_other hcont]
      rfl
    | true =>
      rw [h.keepsAck_same htime hcont]
      have hle := h.pushed
      by_cases hzero : r.pushed = 0
      · simp [hzero]
      · have hone : r.pushed = 1 := by omega
        simp [hone]
  simp only [after, hbefore, hspec.pushed, hspec.ack]
  cases keepsAck ttiInterval r.proc e.grant <;> cases e.input.buffer.isSome <;>
    cases e.input.decodePdsch <;> rfl

/-- A grant in time keeps the invariant. -/
theorem Inv.after (h : r.Inv) {e : DlEvent Γ} (hrnti : e.grant.rntiType = 0)
    (htime : InTime ttiInterval r e) : (r.after ttiInterval codes e).Inv := by
  have hspec := workSpec ttiInterval codes h.pid hrnti
  have hpushed := h.pushed_after codes hrnti htime
  refine ⟨?_, fun l hl => ?_, ?_, ?_, fun hnone => by cases hnone⟩
  · exact hspec.pid.symm ▸ h.pid
  · obtain rfl := Option.some.inj hl
    have hgrant : (r.after ttiInterval codes e).proc.curGrant = _ := hspec.curGrant
    rw [hgrant]
    exact ⟨rfl, rfl, rfl⟩
  · rw [hpushed]
    cases (r.after ttiInterval codes e).proc.ack <;> rfl
  · rw [hpushed]
    split
    · exact Nat.le_refl 1
    · exact Nat.zero_le 1

/-- A block is delivered once exactly when the grants come in time. -/
theorem Inv.deliversOnce_iff (h : r.Inv) {e : DlEvent Γ} (hrnti : e.grant.rntiType = 0) :
    DeliversOnce ttiInterval codes r e ↔ InTime ttiInterval r e := by
  have hspec := workSpec ttiInterval codes h.pid hrnti
  have hpushed := hspec.pushed
  have hack := h.ack
  -- A grant that begins a block meets both sides. One that continues it is compared with the last
  -- grant.
  cases hcont : r.continues e.grant with
  | false =>
    have htime : InTime ttiInterval r e := fun hc => absurd (hcont.symm.trans hc) Bool.false_ne_true
    exact iff_of_true ⟨(h.after hrnti htime).pushed,
      fun hc => absurd (hcont.symm.trans hc) Bool.false_ne_true⟩ htime
  | true =>
    obtain ⟨l, hlast, hndi, hsize⟩ := continues_iff.mp hcont
    have hretx := h.isRetransmission_iff ttiInterval hlast hndi hsize
    constructor
    · rintro ⟨-, hboth⟩ -
      obtain ⟨hreack, hcombine⟩ := hboth hcont
      have hold : r.proc.calcIsNewTransmission ttiInterval e.grant = false := by
        rw [← hspec.resets]
        by_cases hpushed : r.pushed = 0
        · exact (hcombine hpushed).2.2
        · rw [(hreack hpushed).2.1]
          rfl
      refine ⟨fun l' hl' => ?_, fun hpushed => ?_⟩
      · obtain rfl : l = l' := Option.some.inj (hlast.symm.trans hl')
        exact hretx.mp hold
      · have hdecode := hspec.decodeEnabled.symm.trans (hcombine hpushed).1
        exact (Bool.and_eq_true_iff.mp hdecode).2
    · intro htime
      obtain ⟨hnear, hbuffer⟩ := htime hcont
      have hold := hretx.mpr (hnear l hlast)
      have hkeep := h.keepsAck_same htime hcont
      refine ⟨?_, fun _ => ⟨fun hpushed => ?_, fun hpushed => ?_⟩⟩
      · exact (h.after hrnti htime).pushed
      · have hkept := hkeep.trans (decide_eq_true hpushed)
        refine ⟨?_, hspec.reack hkept⟩
        rw [hspec.decodeEnabled, hkept]
        rfl
      · have hdecode : (r.proc.workDl ttiInterval codes e.grant e.input).action.decodeEnabled
          = true := by
          rw [hspec.decodeEnabled, hkeep, hbuffer hpushed, hpushed]
          rfl
        exact ⟨hdecode, hspec.softbuffer.trans hdecode, hspec.resets.trans hold⟩

variable (ttiInterval codes)

/-- A run delivers every block once exactly when the grants of a block are no more than 8 TTIs
apart, and the demux has buffers until it is delivered. -/
theorem deliversOnce_run {pid : Nat} (hpid : pid < harqBcchPid) (isNewTransmission : Bool)
    (nRetx : Nat)
    {es : List (DlEvent Γ)} (hes : ∀ e ∈ es, e.grant.rntiType = 0) :
    Along (step ttiInterval codes) (fun r e _ => DeliversOnce ttiInterval codes r e)
        (start pid isNewTransmission nRetx) es ↔
      Along (step ttiInterval codes) (fun r e _ => InTime ttiInterval r e)
        (start pid isNewTransmission nRetx) es := by
  refine along_iff (I := Inv) (K := fun e => e.grant.rntiType = 0) (fun r e r' h he _ =>
    h.deliversOnce_iff he)
    (fun r e r' h he hstep htime => ?_) hes (inv_start hpid isNewTransmission nRetx)
  obtain rfl := Option.some.inj hstep
  exact h.after he htime

end

/-- Values of the RNTI types. -/
def dlRntiCodes : DlRntiCodes where
  si := 1
  temp := 3
  sps := 4
  nodup := by decide

/-- A retransmission after 8 TTIs, over the wrap of the TTI, and a third one of a block that is
decoded. -/
theorem deliversOnce_run_wrap :
    Along (step srslteTtiInterval dlRntiCodes)
      (fun r e _ => DeliversOnce srslteTtiInterval dlRntiCodes r e) (start 2 false 0)
      [⟨{ tti := 10235, ndi := true, nBytes := 100, phyGrant := () }, { buffer := some 0 }⟩,
        ⟨{ tti := 3, ndi := true, nBytes := 100, phyGrant := () },
          { buffer := some 0, decodePdsch := true }⟩,
        ⟨{ tti := 11, ndi := true, nBytes := 100, phyGrant := () }, { buffer := some 1 }⟩] := by
  refine (deliversOnce_run srslteTtiInterval dlRntiCodes (by decide) false 0 ?_).mpr ?_
  · simp
  · decide

/-- A retransmission after 10 TTIs, when the first acknowledgement was lost. -/
theorem not_deliversOnce_late :
    ¬Along (step srslteTtiInterval dlRntiCodes)
      (fun r e _ => DeliversOnce srslteTtiInterval dlRntiCodes r e) (start 2 false 0)
      [⟨{ tti := 100, ndi := true, nBytes := 100, phyGrant := () },
          { buffer := some 0, decodePdsch := true }⟩,
        ⟨{ tti := 110, ndi := true, nBytes := 100, phyGrant := () },
          { buffer := some 1, decodePdsch := true }⟩] := by
  decide

end DlRun

end SrsUE.Proofs.Mac
